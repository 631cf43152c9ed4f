import Dwadelib.Ipc.Param.Types
import Dwadelib.Ipc.System.Session

namespace Dwadelib.Ipc.System

open Client (Delivery)
open Simulation (performAll performAll_cons_eq_some)

/-! # When a session is answered

An answer differs from its request in the two numbers stored over the second parameter. It is as
long, and it refers to what the request refers to; so the outputs of the request tell whether it
can be given, and whether the caller gets it.
-/

section Answer

variable {message reply : Message} {payload other : Payload} {index : Nat} {bytes : List Byte}

theorem answeredPayload_memref (same : Server.answeredPayload payload = some other) :
    other = .memref bytes ↔ payload = .memref bytes := by
  cases payload with
  | value union =>
      cases same
      simp only [reduceCtorEq]
  | memref referred =>
      obtain ⟨empty, same⟩ := Option.ite_none_right_eq_some.mp same
      rw [empty, ← Option.some.inj same]
  | skipped =>
      cases same
      exact Iff.rfl

theorem answered_paramTypes (same : Server.answered message = some reply) : reply.paramTypes = message.paramTypes := by
  unfold Server.answered at same
  split at same
  · obtain ⟨second, _, rfl⟩ := Option.map_eq_some_iff.mp same
    rfl
  · cases same
    rfl

/-- The references of the answer are those of the request. -/
theorem answered_memref (same : Server.answered message = some reply) :
    reply.payloads[index]? = some (.memref bytes) ↔ message.payloads[index]? = some (.memref bytes) := by
  unfold Server.answered at same
  split at same
  · rename_i first second others split
    obtain ⟨answer, answered, rfl⟩ := Option.map_eq_some_iff.mp same
    rw [split]
    match index with
    | 0 => exact Iff.rfl
    | 1 =>
        simp only [List.getElem?_cons_succ, List.getElem?_cons_zero, Option.some.injEq]
        exact answeredPayload_memref answered
    | index + 2 => exact Iff.rfl
  · cases same
    exact Iff.rfl

theorem answered_exists_iff :
    (∃ reply, Server.answered message = some reply) ↔
      ∀ bytes, message.payloads[1]? = some (.memref bytes) → bytes = [] := by
  unfold Server.answered
  split
  · rename_i first second others split
    simp only [split, List.getElem?_cons_succ, List.getElem?_cons_zero, Option.some.injEq, Option.map_eq_some_iff]
    cases second with
    | value union => simp [Server.answeredPayload]
    | memref referred => simp [Server.answeredPayload]
    | skipped => simp [Server.answeredPayload]
  · rename_i short
    refine iff_of_true ⟨_, rfl⟩ fun bytes placed => ?_
    rcases payloads : message.payloads with _ | ⟨first, _ | ⟨second, others⟩⟩
    · rw [payloads] at placed
      contradiction
    · rw [payloads] at placed
      contradiction
    · exact absurd payloads (short first second others)

theorem octets_append {first second : List Byte} : Octets (first ++ second) ↔ Octets first ∧ Octets second := by
  simp only [Octets, List.mem_append, or_imp, forall_and]

theorem octets_encodeUInt32 (word : UInt32) : Octets (Byte.encodeUInt32 word) := by
  intro byte member
  simp only [Byte.encodeUInt32, List.mem_cons, List.not_mem_nil, or_false] at member
  rcases member with rfl | rfl | rfl | rfl <;> exact ⟨_, rfl⟩

theorem answeredPayload_octets {paramType : UInt32} (same : Server.answeredPayload payload = some other)
    (written : Octets ((payloadFormat paramType).encode payload)) :
    Octets ((payloadFormat paramType).encode other) := by
  cases payload with
  | memref bytes =>
      rwa [(answeredPayload_memref same).mpr rfl]
  | skipped =>
      cases same
      exact written
  | value union =>
      cases same
      unfold payloadFormat at written ⊢
      split
      · rename_i value
        rw [if_pos value, valueFormat_encode] at written
        rw [valueFormat_encode, octets_append, octets_append]
        exact ⟨octets_encodeUInt32 80, octets_encodeUInt32 90, fun byte member =>
          written byte (List.mem_of_mem_drop member)⟩
      · split
        · exact fun byte member => absurd member List.not_mem_nil
        · exact fun byte member => absurd member List.not_mem_nil

theorem answered_octets (same : Server.answered message = some reply) (written : Octets message.frame) :
    Octets reply.frame := by
  have types := answered_paramTypes same
  rw [Message.frame_eq, octets_append, octets_append] at written ⊢
  refine ⟨octets_encodeUInt32 _, octets_encodeUInt32 _, ?_⟩
  have body := written.2.2
  rw [types]
  unfold Server.answered at same
  split at same
  · rename_i first second others split
    obtain ⟨answer, answered, rfl⟩ := Option.map_eq_some_iff.mp same
    rw [split] at body
    obtain ⟨places, counted⟩ : ∃ places, List.range' 0 (getParamCount message.paramTypes) = places := ⟨_, rfl⟩
    rw [payloadFormats, counted] at body ⊢
    rcases places with _ | ⟨place, _ | ⟨next, places⟩⟩
    · exact body
    · exact body
    · simp only [List.map_cons, Format.encodeAll, octets_append] at body ⊢
      exact ⟨body.1, answeredPayload_octets answered body.2.1, body.2.2⟩
  · cases same
    exact body

end Answer

section Serve

variable {request : Request} {message reply : Message} {server : Server.State} {content : List Byte}

theorem ipcSendData_whole {bytes : List Byte} {sending : Sending} (opened : sending.socketOpened = true)
    (parsed : sending.addressParsed = true) (connected : sending.connected = true) (sent : sending.sent.isSome = true)
    (whole : ∀ count, sending.sent = some count → bytes.length ≤ count) : ipcSendData bytes sending = (0, bytes) := by
  obtain ⟨count, taken⟩ := Option.isSome_iff_exists.mp sent
  simp only [ipcSendData, opened, parsed, connected, taken, Bool.not_true, Bool.false_eq_true, if_false,
    List.take_of_length_le (whole count taken)]

theorem Request.Posed.said_eq (posed : request.Posed message) :
    readMessage request.memory request.cmdId request.arrays.caller request.paramTypes = some message := posed.said

theorem Request.Posed.frame_length (posed : request.Posed message) : message.frame.length = message.encodedSize :=
  Message.frame_length (message_valid posed.said_eq)

theorem Request.Posed.small (posed : request.Posed message) : message.encodedSize < 2147483648 :=
  Nat.lt_of_le_of_lt posed.fits (by decide)

/-- The frame is built beside what the caller has, and put on the wire. -/
theorem send_sent (posed : request.Posed message) (sends : request.sends = true) :
    ∃ memory, request.send = some (memory, some message.frame) ∧ request.memory.Extends memory := by
  simp only [Request.sends, Bool.and_eq_true] at sends
  obtain ⟨⟨⟨⟨⟨node, frame⟩, opened⟩, parsed⟩, connected⟩, sent⟩ := sends
  obtain ⟨memory, buff, converted, -, filled, kept⟩ := ipcConvertParam_frame posed.said_eq posed.small
  have positive : (message.encodedSize : Int) ≠ 0 := by
    simp only [Message.encodedSize, uint32Size]
    omega
  have carried := ipcSendData_whole opened parsed connected sent fun count taken =>
    posed.frame_length ▸ posed.whole count taken
  refine ⟨memory, ?_, kept⟩
  simp only [Request.send, node, if_true, frame, Client.ipcConvertParam, converted, positive, if_false,
    Int.toNat_natCast, filled, carried, bind, pure, Option.bind_some]
  rfl

theorem send_unsent (posed : request.Posed message) (unsent : request.sends = false) :
    ∃ memory, request.send = some (memory, none) ∧ request.memory.Extends memory := by
  cases node : request.nodeAllocated with
  | false => exact ⟨request.memory, by simp only [Request.send, node, Bool.false_eq_true, if_false], .refl _⟩
  | true =>
      cases frame : request.frameAllocated with
      | false =>
          have failed := ipcConvertParam_malloc_fails posed.said_eq posed.small
          refine ⟨request.memory, ?_, .refl _⟩
          simp only [Request.send, node, if_true, frame, Client.ipcConvertParam, failed, bind, pure, Option.bind_some]
      | true =>
          obtain ⟨memory, _, converted, rfl, filled, kept⟩ := ipcConvertParam_frame posed.said_eq posed.small
          have positive : (message.encodedSize : Int) ≠ 0 := by
            simp only [Message.encodedSize, uint32Size]
            omega
          have first := Memory.Valid.of_read filled 0 (by simp only [Message.encodedSize, uint32Size]; omega)
          obtain ⟨freed, released⟩ := Memory.free_exists rfl (by simpa using first)
          have status : (ipcSendData message.frame request.sending).1 = 1 := by
            simp only [Request.sends, node, frame, Bool.true_and] at unsent
            simp [Server.ipcSendData_status, unsent]
          refine ⟨freed, ?_, kept.free (Nat.le_refl _) released⟩
          simp only [Request.send, node, if_true, frame, Client.ipcConvertParam, converted, positive, if_false,
            Int.toNat_natCast, filled, status, released, bind, pure, Option.bind_some]

/-- A server that is ready for the next connection. -/
structure Serving (server : Server.State) : Prop where
  running : server.running = true
  ready : ∃ content, Server.Ready server content

/-- What the server makes of the connection of a request. -/
theorem startReceive_frame (posed : request.Posed message) (ready : Server.Ready server content) :
    ∃ octets data rest, octetsOf message.frame = some octets ∧ octets.take buffMaxNum = octets ∧
      Server.Holding (Server.handedState server data) rest message ∧
      Server.startReceive server (.bytes octets) request.environment =
        ((Server.handlerOf message.cmdId).call (Server.handedState server data) message.cmdId Server.params
          message.paramTypes request.environment).getD { Server.handedState server data with running := false } ∧
      (Server.startReceive server (.bytes octets) request.environment).dispatched =
        server.dispatched ++ [Server.dispatchOf message] ∧
      ((Server.startReceive server (.bytes octets) request.environment).running = true →
        ∃ content, Server.Ready (Server.startReceive server (.bytes octets) request.environment) content) := by
  obtain ⟨octets, found, same⟩ := octetsOf_exists posed.octets
  have length : octets.length ≤ buffMaxNum := by
    have size := posed.frame_length
    rw [same, List.length_map] at size
    exact size ▸ posed.fits
  have bounded : (Received.bytes octets).content.length ≤ buffMaxNum := by
    simpa [Received.content] using length
  have accepted : messageFormat.decode (Server.overlay (.bytes octets) content) =
      some (message, content.drop message.frame.length) := by
    rw [Server.overlay, Received.content, ← same]
    exact messageFormat.decode_encode message _ (message_valid posed.said_eq)
  obtain ⟨data, holding, -, served⟩ := Server.startReceive_accepts request.environment ready bounded accepted
  exact ⟨octets, data, _, found, List.take_of_length_le length, holding, served,
    Server.startReceive_dispatched request.environment ready bounded accepted,
    fun running => ⟨_, Server.startReceive_ready ready bounded running⟩⟩

/-- The request goes to `process_sync_command`. -/
theorem Request.Posed.commanded (posed : request.Posed message) :
    Server.handlerOf message.cmdId = .processCommandCall ∧ ¬ message.paramTypes &&& paramTypeCallback > 0 := by
  obtain ⟨number, command⟩ := posed.command
  obtain ⟨payloads, -, rfl⟩ := readMessage_eq_some.mp posed.said_eq
  exact ⟨command ▸ handlerOf_cmdRequest number, posed.synchronous⟩

theorem answered_valid {state : Server.State} (holding : Server.Holding state content message)
    (same : Server.answered message = some reply) : messageFormat.Valid reply := by
  obtain ⟨first, after, firstStored, stored⟩ := Server.answer_stored holding.ready.decodable.room
  have said := Server.readMessage_answered firstStored stored holding.inside holding.said
  rw [same] at said
  exact message_valid said

theorem answersTo_answered (posed : request.Posed message) (same : Server.answered message = some reply)
    (valid : messageFormat.Valid reply) : Server.answersTo message request.environment = [reply.frame] := by
  have sends := posed.answers
  rw [Server.answersTo, if_pos posed.commanded, same]
  simp only [sends, if_true]
  simp only [Server.Environment.sends, Bool.and_eq_true] at sends
  obtain ⟨⟨⟨⟨_, opened⟩, parsed⟩, connected⟩, sent⟩ := sends
  have length : reply.frame.length = message.encodedSize := by
    rw [Message.frame_length valid, Server.answered_encodedSize same]
  rw [ipcSendData_whole opened parsed connected sent fun count taken => length ▸ posed.answerWhole count taken]

theorem serve_answered (posed : request.Posed message) (serving : Serving server)
    (same : Server.answered message = some reply) :
    ∃ served octets, request.serve server message.frame = some (served, some octets) ∧ Serving served ∧
      served.dispatched = server.dispatched ++ [Server.dispatchOf message] ∧
      messageFormat.Valid reply ∧ reply.frame = octets.map .octet := by
  obtain ⟨content, ready⟩ := serving.ready
  obtain ⟨octets, data, rest, found, whole, holding, served, dispatched, again⟩ := startReceive_frame posed ready
  obtain ⟨command, sync⟩ := posed.commanded
  have valid := answered_valid holding same
  have replies : (Server.startReceive server (.bytes octets) request.environment).replies =
      server.replies ++ [reply.frame] := by
    rw [served, Server.call_replies holding posed.small, answersTo_answered posed same valid]
    rfl
  have running : (Server.startReceive server (.bytes octets) request.environment).running = true := by
    rw [served, Server.call_running holding posed.small same command sync]
    exact serving.running
  obtain ⟨answer, answerFound, answerSame⟩ := octetsOf_exists (answered_octets same posed.octets)
  have short : answer.length ≤ buffMaxNum := by
    rw [← List.length_map (f := Byte.octet), ← answerSame, Message.frame_length valid, Server.answered_encodedSize same]
    exact posed.fits
  refine ⟨_, answer, ?_, ⟨running, again running⟩, dispatched, valid, answerSame⟩
  simp only [Request.serve, found, whole, running, replies, if_true, List.drop_left, answerFound,
    List.take_of_length_le short, bind, pure, Option.bind_some]

end Serve

section Return

variable {request : Request} {message reply : Message} {memory after : Memory} {octets : List UInt8} {index : Nat}
  {final : Memory} {payload : Payload}

theorem readPayload_extends {params : Pointer} {paramTypes : UInt32} (kept : memory.Extends after)
    (said : readPayload memory params paramTypes index = some payload) :
    readPayload after params paramTypes index = some payload := by
  by_cases value : isValue (paramTypeGet paramTypes index) = true
  · obtain ⟨union, loaded, same⟩ := (readPayload_value value).mp said
    exact (readPayload_value value).mpr ⟨union, kept.read loaded, same⟩
  · by_cases memref : isMemref (paramTypeGet paramTypes index) = true
    · obtain ⟨size, address, bytes, sized, pointed, loaded, same⟩ := (readPayload_memref memref).mp said
      exact (readPayload_memref memref).mpr ⟨size, address, bytes, kept.loadUInt32 sized, kept.loadPointer pointed,
        kept.readThrough loaded, same⟩
    · simp only [Bool.not_eq_true] at value memref
      rw [← said, readPayload_skipped value memref, readPayload_skipped value memref]

theorem supplied_extends {arrays : Client.Arrays} {paramTypes : UInt32} (kept : memory.Extends after)
    (supplied : Client.Supplied memory arrays paramTypes) : Client.Supplied after arrays paramTypes where
  caller := kept.valid supplied.caller
  node := kept.valid supplied.node
  params := kept.valid supplied.params
  paramsEnd := by
    have older := Memory.block_lt_of_byteAt (supplied.params 0 (by decide))
    have same : after.byteAt (arrays.params.advance (paramSize * numParams : Nat)) = _ := kept _ older
    rw [same]
    exact supplied.paramsEnd
  buff := by
    obtain ⟨content, object, full⟩ := supplied.buff
    exact ⟨content, kept.object object (by rw [full]; decide), full⟩
  memrefs := by
    intro index counted memref
    obtain ⟨address, size, pointed, sized, target⟩ := supplied.memrefs index counted memref
    refine ⟨address, size, kept.loadPointer pointed, kept.loadUInt32 sized, fun nonempty => ?_⟩
    obtain ⟨pointer, same, valid, outside⟩ := target nonempty
    exact ⟨pointer, same, kept.valid valid, outside⟩

/-- The caller compares with its own memory before the request. -/
theorem paramReturned_extends (posed : request.Posed message) (kept : request.memory.Extends memory)
    (counted : index < getParamCount request.paramTypes) :
    Client.ParamReturned memory final request.arrays request.paramTypes reply index ↔
      Client.ParamReturned request.memory final request.arrays request.paramTypes reply index := by
  obtain ⟨payload, -, said⟩ := readMessage_payload posed.said_eq counted
  have known := Nat.lt_of_lt_of_le counted (getParamCount_le request.paramTypes)
  obtain ⟨union, held⟩ := (valid_param posed.supplied.caller known).read_exists
  obtain ⟨first, pointer⟩ := (valid_pointer posed.supplied.caller known).read_exists
  have unionSame : memory.read (paramAt request.arrays.caller index) paramSize =
      request.memory.read (paramAt request.arrays.caller index) paramSize := (kept.read held).trans held.symm
  have pointerSame : memory.read (paramAt request.arrays.caller index) 8 =
      request.memory.read (paramAt request.arrays.caller index) 8 := (kept.read pointer).trans pointer.symm
  have payloadSame : readPayload memory request.arrays.caller request.paramTypes index =
      readPayload request.memory request.arrays.caller request.paramTypes index :=
    (readPayload_extends kept said).trans said.symm
  simp only [Client.ParamReturned, unionSame, pointerSame, payloadSame, Memory.loadPointer_congr pointerSame]

theorem answers_extends (posed : request.Posed message) (kept : request.memory.Extends memory)
    (same : Server.answered message = some reply) (valid : messageFormat.Valid reply)
    (frame : reply.frame = octets.map .octet) :
    Client.Answers memory request.arrays request.paramTypes (.bytes octets) reply where
  decoded := by
    rw [Received.content, ← frame, ← List.append_nil reply.frame]
    exact messageFormat.decode_encode reply [] valid
  whole := by
    rw [Received.content, ← frame, Message.frame_length valid, Server.answered_encodedSize same]
    exact posed.fits
  types := by
    intro index _
    obtain ⟨payloads, -, rfl⟩ := readMessage_eq_some.mp posed.said_eq
    rw [answered_paramTypes same]
  fits := by
    intro index counted out size sized
    obtain ⟨payload, placed, said⟩ := readMessage_payload posed.said_eq counted
    obtain ⟨word, address, bytes, held, -, loaded, rfl⟩ := (readPayload_memref (isMemref_of_isMemrefOut out)).mp said
    cases sized.symm.trans (kept.loadUInt32 held)
    rw [Client.replySize_eq ((answered_memref same).mpr placed), Memory.length_of_readThrough loaded]

theorem receiveReply_cmdId {arrays : Client.Arrays} {paramTypes : UInt32} {received : Received} {stored : Memory}
    {data : ConvertedData} (supplied : Client.Supplied memory arrays paramTypes)
    (answers : Client.Answers memory arrays paramTypes received reply)
    (storing : Client.storeParams memory arrays = some stored)
    (receives : Client.receiveReply stored arrays received = some data) : data.cmdId = reply.cmdId := by
  obtain ⟨_, _, _, nodeBuff, _⟩ := arrays.apart
  obtain ⟨content, object, full⟩ := supplied.buff
  obtain ⟨again, storingAgain, copied⟩ := Client.storeParams_copied supplied.caller supplied.node
  cases storing.symm.trans storingAgain
  have kept : stored.Object arrays.buff content := object.congr fun query same =>
    copied.elsewhere (by rw [same]; exact Ne.symm nodeBuff)
  obtain ⟨decoded, receivesAgain, -, said, -⟩ := Client.receiveReply_decodes kept full
    (Client.landed_of_stored supplied storing).params answers.decoded answers.whole
  cases receives.symm.trans receivesAgain
  obtain ⟨payloads, -, same⟩ := readMessage_eq_some.mp said
  rw [← same]

/-- The answer has the id the caller waits under. -/
theorem answered_delivery (posed : request.Posed message) (same : Server.answered message = some reply) (origin : Nat) :
    Delivery.isRespond { cmdId := reply.cmdId, origin } = true ∧
      Delivery.searched { cmdId := reply.cmdId, origin } = request.cmdId := by
  obtain ⟨number, command⟩ := posed.command
  obtain ⟨payloads, -, rfl⟩ := readMessage_eq_some.mp posed.said_eq
  rw [answered_cmdId same, command]
  exact ⟨isRespond_cmdRequest number origin, searched_cmdRequest number origin⟩

end Return

section Session

variable {session : Session} {request : Request} {message reply : Message}

/-- Between two requests nobody waits, and the server is ready. -/
structure Session.Rests (session : Session) : Prop where
  idle : Idle session.client
  serving : Serving session.server

theorem step_unsent (rests : session.Rests) (posed : request.Posed message) (unsent : request.sends = false) :
    ∃ next result, session.step request = some (next, result) ∧ next.Rests ∧ request.Right result ∧
      next.server = session.server := by
  obtain ⟨memory, sent, kept⟩ := send_unsent posed unsent
  obtain ⟨client, ran, idle⟩ := failed_run request.cmdId rests.idle
  refine ⟨{ session with client }, (1, memory), ?_, ⟨idle, rests.serving⟩, ?_, rfl⟩
  · simp only [Session.step, sent, ran, bind, pure, Option.bind_some]
  · rw [Request.Right, unsent, if_neg (by decide)]
    exact ⟨rfl, kept⟩

/-- Both threads come through an answered request; what the caller gets is a matter of the copies. -/
theorem step_answered (rests : session.Rests) (posed : request.Posed message) (sends : request.sends = true)
    (same : Server.answered message = some reply) :
    ∃ next memory octets, next.Rests ∧
      next.server.dispatched = session.server.dispatched ++ [Server.dispatchOf message] ∧
      request.memory.Extends memory ∧
      Client.Answers memory request.arrays request.paramTypes (.bytes octets) reply ∧
      session.step request =
        (Client.synchronousRequest memory request.arrays request.paramTypes (.bytes octets)).map fun final =>
          (next, 0, final) := by
  obtain ⟨memory, sent, kept⟩ := send_sent posed sends
  obtain ⟨served, octets, answered, serving, dispatched, valid, frame⟩ := serve_answered posed rests.serving same
  have answers := answers_extends posed kept same valid frame
  have supplied := supplied_extends kept posed.supplied
  obtain ⟨stored, data, storing, receives, -⟩ := Client.prepared_exists supplied answers
  have delivered := receiveReply_cmdId supplied answers storing receives
  obtain ⟨respond, searched⟩ := answered_delivery posed same session.client.calls.length
  obtain ⟨client, ran, idle⟩ := answered_run rests.idle respond searched
  refine ⟨{ client, server := served }, memory, octets, ⟨idle, serving⟩, dispatched, kept, answers, ?_⟩
  simp only [Session.step, sent, answered, storing, receives, delivered, Session.waits, List.cons_append,
    List.nil_append, ran, bind, pure, Option.bind_some]
  cases Client.synchronousRequest memory request.arrays request.paramTypes (.bytes octets) <;> rfl

theorem payloads_length (posed : request.Posed message) : message.payloads.length = getParamCount request.paramTypes := by
  obtain ⟨payloads, read, rfl⟩ := readMessage_eq_some.mp posed.said_eq
  rw [← (payloads_valid read).length_eq, payloadFormats, List.length_map, List.length_range']

theorem referencesEmpty_iff (posed : request.Posed message) (same : Server.answered message = some reply) :
    Client.ReferencesEmpty request.paramTypes reply ↔
      ∀ index bytes, message.payloads[index]? = some (.memref bytes) →
        isMemrefOut (paramTypeGet request.paramTypes index) = true → bytes = [] := by
  constructor
  · intro empty index bytes placed out
    obtain ⟨counted, -⟩ := List.getElem?_eq_some_iff.mp placed
    have size := empty index (payloads_length posed ▸ counted) out
    rw [Client.replySize_eq ((answered_memref same).mpr placed)] at size
    exact List.length_eq_zero_iff.mp size
  · intro empty index counted out
    obtain ⟨payload, placed, said⟩ := readMessage_payload posed.said_eq counted
    obtain ⟨_, _, bytes, -, -, -, rfl⟩ := (readPayload_memref (isMemref_of_isMemrefOut out)).mp said
    rw [Client.replySize_eq ((answered_memref same).mpr placed), empty index bytes placed out, List.length_nil]

theorem step_right (rests : session.Rests) (posed : request.Posed message) (sends : request.sends = true)
    (plain : request.Plain message) :
    ∃ next result, session.step request = some (next, result) ∧ next.Rests ∧ request.Right result ∧
      next.server.dispatched = session.server.dispatched ++ [Server.dispatchOf message] := by
  obtain ⟨reply, same⟩ := answered_exists_iff.mpr fun bytes placed => plain 1 bytes placed (.inl rfl)
  obtain ⟨next, memory, octets, restsAfter, dispatched, kept, answers, taken⟩ := step_answered rests posed sends same
  have empty := (referencesEmpty_iff posed same).mpr fun index bytes placed out => plain index bytes placed (.inr out)
  obtain ⟨final, completed, returned⟩ :=
    (Client.synchronousOutputs_iff (supplied_extends kept posed.supplied) answers).mpr empty
  refine ⟨next, (0, final), by rw [taken, completed, Option.map_some], restsAfter, ?_, dispatched⟩
  rw [Request.Right, if_pos sends]
  exact ⟨rfl, message, reply, posed.said, same, fun index counted =>
    (paramReturned_extends posed kept counted).mp (returned index counted)⟩

theorem plain_of_right {next : Session} {result : Int × Memory} (rests : session.Rests) (posed : request.Posed message)
    (sends : request.sends = true) (taken : session.step request = some (next, result))
    (right : request.Right result) : request.Plain message := by
  rw [Request.Right, if_pos sends] at right
  obtain ⟨-, said, reply, found, same, returned⟩ := right
  cases posed.said.symm.trans found
  obtain ⟨_, memory, octets, -, -, kept, answers, takenAgain⟩ := step_answered rests posed sends same
  rw [takenAgain] at taken
  obtain ⟨final, completed, same_result⟩ := Option.map_eq_some_iff.mp taken
  cases same_result
  have empty := (Client.synchronousOutputs_iff (supplied_extends kept posed.supplied) answers).mp
    ⟨final, completed, fun index counted => (paramReturned_extends posed kept counted).mpr (returned index counted)⟩
  intro index bytes placed which
  rcases which with rfl | out
  · exact answered_exists_iff.mp ⟨reply, same⟩ bytes placed
  · exact (referencesEmpty_iff posed same).mp empty index bytes placed out

/-- Every request returns what is right for it, and the server has got those that were sent, in order. -/
def Session.Answered (session : Session) (requests : List Request) : Prop :=
  ∃ final results, performAll Session.step session requests = some (final, results) ∧
    List.Forall₂ Request.Right requests results ∧
    final.server.dispatched = session.server.dispatched ++ (requests.filterMap Request.asked).map Server.dispatchOf

theorem plain_of_taken {next : Session} {result : Int × Memory} (rests : session.Rests) (posed : request.Posed message)
    (taken : session.step request = some (next, result)) (right : request.Right result) :
    ∀ said, request.asked = some said → request.Plain said := by
  intro said asked
  obtain ⟨sends, found⟩ := Option.ite_none_right_eq_some.mp asked
  cases posed.said.symm.trans found
  exact plain_of_right rests posed sends taken right

theorem step_plain (rests : session.Rests) (posed : request.Posed message)
    (plain : ∀ said, request.asked = some said → request.Plain said) :
    ∃ next result, session.step request = some (next, result) ∧ next.Rests ∧ request.Right result ∧
      next.server.dispatched = session.server.dispatched ++ request.asked.toList.map Server.dispatchOf := by
  cases sends : request.sends with
  | true =>
      have asked : request.asked = some message := by rw [Request.asked, if_pos sends, posed.said]
      obtain ⟨next, result, taken, restsAfter, right, dispatched⟩ := step_right rests posed sends (plain message asked)
      exact ⟨next, result, taken, restsAfter, right, by rw [dispatched, asked]; rfl⟩
  | false =>
      have asked : request.asked = none := by rw [Request.asked, sends, if_neg (by decide)]
      obtain ⟨next, result, taken, restsAfter, right, same⟩ := step_unsent rests posed sends
      exact ⟨next, result, taken, restsAfter, right, by rw [same, asked]; exact (List.append_nil _).symm⟩

theorem filterMap_asked (request : Request) (requests : List Request) :
    (request :: requests).filterMap Request.asked = request.asked.toList ++ requests.filterMap Request.asked := by
  rw [List.filterMap_cons]
  cases request.asked <;> rfl

theorem answered_iff_plain {requests : List Request} (rests : session.Rests)
    (posed : ∀ request ∈ requests, ∃ message, request.Posed message) :
    session.Answered requests ↔
      ∀ request ∈ requests, ∀ message, request.asked = some message → request.Plain message := by
  induction requests generalizing session with
  | nil =>
      refine iff_of_true ⟨session, [], rfl, .nil, (List.append_nil _).symm⟩ fun request member => ?_
      exact absurd member List.not_mem_nil
  | cons request requests ih =>
      obtain ⟨message, first⟩ := posed request List.mem_cons_self
      have later := fun other member => posed other (List.mem_cons_of_mem request member)
      rw [List.forall_mem_cons]
      constructor
      · rintro ⟨final, results, performed, right, dispatched⟩
        obtain ⟨next, result, rest, taken, others, rfl⟩ := performAll_cons_eq_some.mp performed
        obtain ⟨rightFirst, rightOthers⟩ := List.forall₂_cons.mp right
        have plain := plain_of_taken rests first taken rightFirst
        obtain ⟨_, _, takenAgain, restsAfter, -, handed⟩ := step_plain rests first plain
        cases taken.symm.trans takenAgain
        rw [filterMap_asked, List.map_append, ← List.append_assoc, ← handed] at dispatched
        exact ⟨plain, (ih restsAfter later).mp ⟨final, rest, others, rightOthers, dispatched⟩⟩
      · rintro ⟨plain, others⟩
        obtain ⟨next, result, taken, restsAfter, right, handed⟩ := step_plain rests first plain
        obtain ⟨final, rest, performed, rightOthers, dispatched⟩ := (ih restsAfter later).mpr others
        refine ⟨final, result :: rest, performAll_cons_eq_some.mpr ⟨next, result, rest, taken, performed, rfl⟩,
          .cons right rightOthers, ?_⟩
        rw [dispatched, handed, filterMap_asked, List.map_append, List.append_assoc]

end Session

theorem rests_start (isNull : Bool) : (Session.start isNull).Rests :=
  ⟨⟨rfl, rfl, rfl⟩, ⟨rfl, _, Server.ready_initial⟩⟩

section TwoValues

def valueBytes (first second : UInt32) : List Byte :=
  Byte.encodeUInt32 first ++ Byte.encodeUInt32 second ++ List.replicate 8 (.octet 0)

def twoValuesMemory : Memory where
  blocks := [some (valueBytes 10 20 ++ valueBytes 30 40 ++ List.replicate 64 .undefined),
    some (List.replicate 96 .undefined), some (List.replicate buffMaxNum (.octet 0)), some (List.replicate 96 .undefined)]

theorem twoValues_distinct : [0, 1, 2, 3].Nodup := by decide

def twoValuesArrays : Client.Arrays where
  caller := ⟨0, 0⟩
  node := ⟨1, 0⟩
  buff := ⟨2, 0⟩
  params := ⟨3, 0⟩
  distinct := twoValues_distinct

def twoValuesTypes : UInt32 := ipcTwoParamTypes paramTypeValueInput paramTypeValueOutput

/-- The first request of `main`, over a connection that may be refused. -/
def twoValues (connected : Bool) : Request where
  memory := twoValuesMemory
  arrays := twoValuesArrays
  cmdId := cmdRequestInit
  paramTypes := twoValuesTypes
  nodeAllocated := true
  frameAllocated := true
  sending := { socketOpened := true, addressParsed := true, connected, sent := some 40 }
  environment :=
    { nodeAllocated := true, replyAllocated := true,
      sending := { socketOpened := true, addressParsed := true, connected := true, sent := some 40 } }

def twoValuesMessage : Message where
  cmdId := cmdRequestInit
  paramTypes := twoValuesTypes
  payloads := [.value (valueBytes 10 20), .value (valueBytes 30 40)]

theorem valid_block {memory : Memory} {block : Nat} {content : List Byte}
    (live : memory.blocks[block]? = some (some content)) {count : Nat} (length : content.length = count) :
    memory.Valid ⟨block, 0⟩ count :=
  length ▸ Memory.Valid.of_read (Memory.object_of_block live).read_all

theorem supplied_twoValues : Client.Supplied twoValuesMemory twoValuesArrays twoValuesTypes where
  caller := valid_block rfl (by decide)
  node := valid_block rfl (by decide)
  params := valid_block rfl (by decide)
  paramsEnd := by decide
  buff := ⟨_, Memory.object_of_block rfl, List.length_replicate⟩
  memrefs := by
    have values : ∀ index < 2, isMemref (paramTypeGet twoValuesTypes index) = false := by decide
    have count : getParamCount twoValuesTypes = 2 := by decide
    intro index counted memref
    rw [values index (by omega)] at memref
    contradiction

theorem said_twoValues : readMessage twoValuesMemory cmdRequestInit ⟨0, 0⟩ twoValuesTypes = some twoValuesMessage := by
  decide

theorem posed_twoValues (connected : Bool) : (twoValues connected).Posed twoValuesMessage where
  supplied := supplied_twoValues
  said := said_twoValues
  fits := by decide
  octets := by
    intro byte member
    have written : twoValuesMessage.frame =
        [0, 1, 0, 0, 0x21, 0, 0, 0, 10, 0, 0, 0, 20, 0, 0, 0, 0, 0, 0, 0, 0, 0, 0, 0,
          30, 0, 0, 0, 40, 0, 0, 0, 0, 0, 0, 0, 0, 0, 0, 0].map .octet := by decide
    rw [written] at member
    obtain ⟨octet, -, rfl⟩ := List.mem_map.mp member
    exact ⟨octet, rfl⟩
  command := ⟨1, rfl⟩
  synchronous := show ¬ twoValuesTypes &&& paramTypeCallback > 0 by decide
  whole := by
    rintro _ ⟨⟩
    decide
  answers := rfl
  answerWhole := by
    rintro _ ⟨⟩
    decide

end TwoValues

end Dwadelib.Ipc.System
