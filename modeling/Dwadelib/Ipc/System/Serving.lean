import Dwadelib.Ipc.System
import Dwadelib.Ipc.Server.Pending
import Dwadelib.Ipc.Client.Output

namespace Dwadelib.Ipc.System

/-! # What the steps of the network stand for

`serve`, `record` and `deliver` say only which request they are about. Here they are what the
two `start_receive` do with the whole frame of that request, and of its reply.
-/

section Serving

variable {system : System} {server : Server.State} {content rest : List Byte} {received : Received}
  {environment : Server.Environment} {message reply : Message} {id : Nat}

theorem callback_marked (paramTypes : UInt32) : (paramTypes ||| paramTypeCallback) &&& paramTypeCallback > 0 := by
  have kept : (paramTypes ||| paramTypeCallback) &&& paramTypeCallback = paramTypeCallback := by
    apply UInt32.toBitVec_inj.mp
    ext position
    simp only [UInt32.toBitVec_and, UInt32.toBitVec_or, BitVec.getElem_and, BitVec.getElem_or]
    cases paramTypeCallback.toBitVec[position] <;> simp
  rw [kept]
  decide

/-- An asynchronous request is never answered by `serve`. -/
theorem answersTo_callback {paramTypes : UInt32}
    (types : message.paramTypes = paramTypes ||| paramTypeCallback) :
    Server.answersTo message environment = [] := by
  have marked := callback_marked paramTypes
  rw [← types] at marked
  rw [Server.answersTo, if_neg fun served => served.2 marked]

theorem handlerOf_of_isCommand (asked : system.cmdIdOf id = some message.cmdId)
    (command : system.isCommand id = true) :
    Server.handlerOf message.cmdId = .processCommandCall := by
  obtain ⟨call, known, same⟩ := Option.map_eq_some_iff.mp asked
  rw [isCommand, known, Option.any_some, same] at command
  exact of_decide_eq_true command

theorem answered_cmdId (answered : Server.answered message = some reply) :
    reply.cmdId = message.cmdId ||| cmdRespond := by
  unfold Server.answered at answered
  split at answered
  · obtain ⟨second, _, rfl⟩ := Option.map_eq_some_iff.mp answered
    rfl
  · cases answered
    rfl

/-- `serve`: the frame that goes back carries the id of the reply to the request. -/
theorem startReceive_serves (asked : system.cmdIdOf id = some message.cmdId)
    (command : system.isCommand id = true)
    (synchronous : ¬ message.paramTypes &&& paramTypeCallback > 0)
    (ready : Server.Ready server content) (bounded : received.content.length ≤ buffMaxNum)
    (accepted : messageFormat.decode (Server.overlay received content) = some (message, rest))
    (answered : Server.answered message = some reply) (sends : environment.sends = true) :
    (Server.startReceive server received environment).replies =
        server.replies ++ [(ipcSendData reply.frame environment.sending).2] ∧
      reply.cmdId = (system.replyTo id).cmdId := by
  have handler := handlerOf_of_isCommand asked command
  obtain ⟨data, holding, _, same⟩ := Server.startReceive_accepts environment ready bounded accepted
  have fits : message.encodedSize < 2147483648 := by
    have size := encodedSize_le_of_decode accepted
    rw [Server.overlay_length ready.full bounded] at size
    simp only [buffMaxNum] at size
    omega
  refine ⟨?_, ?_⟩
  · rw [same, Server.call_replies holding fits, Server.answersTo, if_pos ⟨handler, synchronous⟩, answered]
    simp only [sends, if_true]
    rfl
  · rw [answered_cmdId answered, replyTo, asked, Option.getD_some]

/-- `record`: a node with the id of the request is linked last, and nothing goes back. -/
theorem startReceive_records (asked : system.cmdIdOf id = some message.cmdId)
    (command : system.isCommand id = true) (marked : message.paramTypes &&& paramTypeCallback > 0)
    (ready : Server.Ready server content) (bounded : received.content.length ≤ buffMaxNum)
    (accepted : messageFormat.decode (Server.overlay received content) = some (message, rest))
    (live : ∀ id ∈ server.responseCallbackList, (server.cmdIdOf id).isSome)
    (allocated : environment.nodeAllocated = true) :
    (Server.startReceive server received environment).replies = server.replies ∧
      (Server.startReceive server received environment).responseCallbackList =
        server.responseCallbackList ++ [server.nodes.length] ∧
      (Server.startReceive server received environment).cmdIdOf server.nodes.length =
        system.cmdIdOf id := by
  have handler := handlerOf_of_isCommand asked command
  obtain ⟨data, holding, _, same⟩ := Server.startReceive_accepts environment ready bounded accepted
  obtain ⟨memory, copied, _, called⟩ := Server.processAsyncCommand_allocated message.cmdId
    message.paramTypes holding.ready.decodable.room live allocated
  rw [same, handler, asked]
  simp only [Server.Handler.call, Server.processCommandCall, if_pos marked, called, Option.getD_some]
  refine ⟨rfl, rfl, ?_⟩
  rw [Server.State.cmdIdOf_append (Server.handedState server data) _ rfl]
  exact if_pos rfl

/-- `deliver`: the client decodes the id of the reply to the request. -/
theorem receiveReply_delivers {memory : Memory} {arrays : Client.Arrays}
    (asked : system.cmdIdOf id = some message.cmdId) (answered : Server.answered message = some reply)
    (object : memory.Object arrays.buff content) (full : content.length = buffMaxNum)
    (room : memory.Valid arrays.params (paramSize * numParams))
    (decoded : messageFormat.decode received.content = some (reply, []))
    (whole : received.content.length ≤ buffMaxNum) :
    ∃ data, Client.receiveReply memory arrays received = some data ∧
      data.cmdId = (system.replyTo id).cmdId := by
  obtain ⟨data, receives, _, held, _⟩ :=
    Client.receiveReply_decodes object full room decoded whole
  obtain ⟨payloads, _, same⟩ := readMessage_eq_some.mp held
  refine ⟨data, receives, ?_⟩
  rw [replyTo, asked, Option.getD_some, ← answered_cmdId answered, ← same]

end Serving

end Dwadelib.Ipc.System
