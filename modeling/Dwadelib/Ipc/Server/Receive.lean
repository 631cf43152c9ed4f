import Dwadelib.Ipc.Server
import Dwadelib.Ipc.Convert.Decode

namespace Dwadelib.Ipc.Server

/-! # What one connection makes the server do -/

section Receive

variable {state next handed : State} {memory : Memory} {content : List Byte} {cmdId paramTypes : UInt32}
  {environment : Environment} {received : Received} {message : Message} {handler : Handler}
  {status : Int} {rest : List Byte}

/-- The static buffer with this content, and the parameters in another object. -/
structure Ready (state : State) (content : List Byte) : Prop where
  decodable : Decodable state.memory buff params content
  full : content.length = buffMaxNum

/-- The parameters say the message, and its references point into the buffer. -/
structure Holding (state : State) (content : List Byte) (message : Message) : Prop where
  ready : Ready state content
  said : readMessage state.memory message.cmdId params message.paramTypes = some message
  inside : ∀ index < getParamCount message.paramTypes,
    isMemref (paramTypeGet message.paramTypes index) = true →
    ∃ offset, state.memory.loadPointer (paramAt params index) = some (some (buff.advance offset))

theorem ready_initial : Ready initial (List.replicate buffMaxNum (.octet 0)) := by
  refine ⟨⟨Memory.object_of_block rfl, ?_, ?_, by decide⟩, List.length_replicate⟩
  · rw [List.length_replicate]
    decide
  · intro index inside
    simp only [initial, params, Memory.byteAt, Pointer.advance, Int.zero_add, Int.natCast_nonneg,
      if_true, List.getElem?_cons_succ, List.getElem?_cons_zero, Option.join_some, Option.bind_some,
      Int.toNat_natCast]
    rw [List.getElem?_eq_getElem (by rw [List.length_replicate]; exact inside)]
    rfl

/-- What the buffer holds after `recv`: the received bytes in front of the older ones. -/
def overlay (received : Received) (content : List Byte) : List Byte :=
  received.content ++ content.drop received.content.length

theorem overlay_length (full : content.length = buffMaxNum)
    (bounded : received.content.length ≤ buffMaxNum) :
    (overlay received content).length = buffMaxNum := by
  rw [overlay, List.length_append, List.length_drop, full]
  omega

theorem recv_exists (ready : Ready state content) (bounded : received.content.length ≤ buffMaxNum) :
    ∃ memory, recv state.memory buff received = some (memory, received.result) ∧
      Decodable memory buff params (overlay received content) := by
  have decodable := ready.decodable
  obtain ⟨memory, receives, stored, object⟩ :=
    recv_object received decodable.object (by rw [ready.full]; exact bounded)
  refine ⟨memory, receives, object, ?_, ?_, ?_⟩
  · rw [overlay_length ready.full bounded]
    decide
  · exact (Memory.valid_write_iff stored).mpr decodable.room
  · exact decodable.separate

/-- A handler keeps the trace of dispatches, the buffer and its parameters. -/
structure Handled (before after : State) : Prop where
  dispatched : after.dispatched = before.dispatched
  running : after.running = before.running
  ready : ∀ content, Ready before content → Ready after content

theorem Handled.trans {first second third : State} (earlier : Handled first second)
    (later : Handled second third) : Handled first third :=
  ⟨later.dispatched.trans earlier.dispatched, later.running.trans earlier.running,
    fun content ready => later.ready content (earlier.ready content ready)⟩

theorem Ready.extends (ready : Ready state content) (kept : state.memory.Extends memory) :
    Decodable memory buff params content := by
  have decodable := ready.decodable
  have nonempty : 0 < content.length := by
    rw [ready.full]
    decide
  exact ⟨kept.object decodable.object nonempty, decodable.bounded, kept.valid decodable.room,
    decodable.separate⟩

/-- Encoding and sending leave every object as it is. -/
theorem convertAndSend_kept {answer : Answer}
    (sent : convertAndSend memory cmdId params paramTypes environment = some answer) :
    memory.Extends answer.memory ∧
      ∀ reply, answer.buff = some reply → memory.blocks.length ≤ reply.block := by
  simp only [convertAndSend, bind, pure, Option.bind_eq_some_iff] at sent
  obtain ⟨⟨after, result⟩, converted, sent⟩ := sent
  obtain ⟨kept, fresh⟩ := ipcConvertParam_kept converted
  cases result with
  | none =>
      cases sent
      exact ⟨kept, fun _ found => by contradiction⟩
  | some result =>
      obtain ⟨reply, size⟩ := result
      simp only at sent
      split at sent
      · cases sent
        exact ⟨kept, fun _ found => by contradiction⟩
      · simp only [Option.bind_eq_some_iff] at sent
        obtain ⟨bytes, _, sent⟩ := sent
        split at sent
        · cases sent
          exact ⟨kept, fun _ found => by contradiction⟩
        · cases sent
          refine ⟨kept, ?_⟩
          intro found same
          cases same
          exact Nat.le_of_eq (fresh _ size rfl).symm

theorem ipcServerRespondCall_handled
    (called : ipcServerRespondCall state cmdId params paramTypes environment = some (next, status)) :
    Handled state next := by
  simp only [ipcServerRespondCall, bind, pure, Option.bind_eq_some_iff] at called
  obtain ⟨answer, sent, called⟩ := called
  obtain ⟨kept, newer⟩ := convertAndSend_kept sent
  cases buffer : answer.buff with
  | none =>
      rw [buffer] at called
      cases called
      exact ⟨rfl, rfl, fun content ready => ⟨ready.extends kept, ready.full⟩⟩
  | some reply =>
      simp only [buffer, Option.bind_eq_some_iff] at called
      obtain ⟨memory, freed, same⟩ := called
      cases same
      exact ⟨rfl, rfl, fun content ready =>
        ⟨ready.extends (kept.free (newer reply buffer) freed), ready.full⟩⟩

/-- The state `processSyncCommand` answers in: 80 and 90 stand in the second parameter. -/
theorem processSyncCommand_eq_some {isSync : Bool} :
    processSyncCommand state cmdId params paramTypes isSync environment = some next ↔
      ∃ first memory, state.memory.storeUInt32 (paramAt params 1) 80 = some first ∧
        first.storeUInt32 ((paramAt params 1).advance 4) 90 = some memory ∧
        if isSync then ∃ status, ipcServerRespondCall { state with memory } (cmdId ||| cmdRespond) params
          paramTypes environment = some (next, status)
        else next = { state with memory } := by
  simp only [processSyncCommand, bind, pure, Option.bind_eq_some_iff]
  constructor
  · intro given
    obtain ⟨first, firstStored, memory, stored, answered⟩ := given
    refine ⟨first, memory, firstStored, stored, ?_⟩
    cases isSync with
    | true =>
        simp only [if_true, Option.bind_eq_some_iff, Option.some.injEq] at answered ⊢
        obtain ⟨⟨after, status⟩, called, rfl⟩ := answered
        exact ⟨status, called⟩
    | false =>
        simp only [Bool.false_eq_true, if_false, Option.some.injEq] at answered ⊢
        exact answered.symm
  · intro given
    obtain ⟨first, memory, firstStored, stored, answered⟩ := given
    refine ⟨first, firstStored, memory, stored, ?_⟩
    cases isSync with
    | true =>
        simp only [if_true, Option.bind_eq_some_iff, Option.some.injEq] at answered ⊢
        obtain ⟨status, called⟩ := answered
        exact ⟨(next, status), called, rfl⟩
    | false =>
        simp only [Bool.false_eq_true, if_false, Option.some.injEq] at answered ⊢
        exact answered.symm

theorem processSyncCommand_handled {isSync : Bool}
    (called : processSyncCommand state cmdId params paramTypes isSync environment = some next) :
    Handled state next := by
  obtain ⟨first, memory, firstStored, stored, answered⟩ := processSyncCommand_eq_some.mp called
  have written : Handled state { state with memory } := by
    refine ⟨rfl, rfl, fun content ready => ⟨?_, ready.full⟩⟩
    exact (ready.decodable.write firstStored rfl).write stored rfl
  split at answered
  · obtain ⟨status, responded⟩ := answered
    exact written.trans (ipcServerRespondCall_handled responded)
  · rw [answered]
    exact written

theorem processAsyncCommand_handled
    (called : processAsyncCommand state cmdId params paramTypes environment = some next) :
    Handled state next := by
  unfold processAsyncCommand at called
  split at called
  · simp only [recordNode, bind, pure, Option.bind_eq_some_iff, Option.some.injEq] at called
    obtain ⟨⟨recorded, id⟩, ⟨copied, _, same⟩, list, _, processed⟩ := called
    cases same
    obtain ⟨dispatched, running, ready⟩ := processSyncCommand_handled processed
    exact ⟨dispatched, running, fun content before => ready content ⟨before.decodable, before.full⟩⟩
  · cases called
    exact ⟨rfl, rfl, fun content ready => ready⟩

theorem processRegister_handled
    (called : processRegister state cmdId params paramTypes environment = some next) :
    Handled state next := by
  unfold processRegister at called
  split at called
  · simp only [recordNode, bind, pure, Option.bind_eq_some_iff, Option.some.injEq] at called
    obtain ⟨⟨recorded, id⟩, ⟨copied, _, same⟩, list, _, rfl⟩ := called
    cases same
    exact ⟨rfl, rfl, fun content before => ⟨before.decodable, before.full⟩⟩
  · cases called
    exact ⟨rfl, rfl, fun content ready => ready⟩

theorem Handler.call_handled
    (called : handler.call state cmdId params paramTypes environment = some next) :
    Handled state next := by
  cases handler with
  | processRegister => exact processRegister_handled called
  | processCommandCall =>
      change Server.processCommandCall state cmdId params paramTypes environment = some next at called
      unfold Server.processCommandCall at called
      split at called
      · exact processAsyncCommand_handled called
      · exact processSyncCommand_handled called

/-- The state in which a handler is called. -/
def handedState (state : State) (data : ConvertedData) : State :=
  { state with
    memory := data.memory
    dispatched := state.dispatched ++ [{
      handler := handlerOf data.cmdId
      cmdId := data.cmdId
      paramTypes := data.paramTypes
      payloads := readPayloads data.memory params data.paramTypes 0 (getParamCount data.paramTypes) }] }

/-- The call a handler gets for a message. -/
def dispatchOf (message : Message) : Dispatch where
  handler := handlerOf message.cmdId
  cmdId := message.cmdId
  paramTypes := message.paramTypes
  payloads := some message.payloads

theorem dispatchOf_injective {first second : Message} (same : dispatchOf first = dispatchOf second) :
    first = second := by
  cases first
  cases second
  simp only [dispatchOf, Dispatch.mk.injEq, Option.some.injEq] at same
  obtain ⟨_, cmdId, paramTypes, payloads⟩ := same
  rw [cmdId, paramTypes, payloads]

theorem startReceive_eq (environment : Environment) (ready : Ready state content)
    (bounded : received.content.length ≤ buffMaxNum) :
    ∃ memory, Decodable memory buff params (overlay received content) ∧
      startReceive state received environment =
        match Ipc.ipcConvertData memory buff received.result params with
        | none => { state with running := false }
        | some data =>
            ((handlerOf data.cmdId).call (handedState state data) data.cmdId params data.paramTypes
              environment).getD { handedState state data with running := false } := by
  obtain ⟨memory, stored, decodable⟩ := recv_exists ready bounded
  refine ⟨memory, decodable, ?_⟩
  simp only [startReceive, stored, Option.bind_some, Server.ipcConvertData]
  cases converted : Ipc.ipcConvertData memory buff received.result params with
  | none => rfl
  | some data =>
      obtain ⟨_, _, _, _, _, _, same⟩ := ipcConvertData_eq_some.mp converted
      have status : data.status = 0 := by rw [same]
      simp only [status, if_true]
      rfl

theorem getD_handled (called : Option State)
    (handled : ∀ after, called = some after → Handled handed after) :
    (called.getD { handed with running := false }).dispatched = handed.dispatched ∧
      ∀ content, Ready handed content →
        Ready (called.getD { handed with running := false }) content := by
  cases called with
  | none => exact ⟨rfl, fun content ready => ⟨ready.decodable, ready.full⟩⟩
  | some after => exact ⟨(handled after rfl).dispatched, (handled after rfl).ready⟩

/-- The buffer is never cleared: the next connection finds what this one left. -/
theorem startReceive_ready (ready : Ready state content)
    (bounded : received.content.length ≤ buffMaxNum)
    (running : (startReceive state received environment).running = true) :
    Ready (startReceive state received environment) (overlay received content) := by
  obtain ⟨memory, decodable, same⟩ := startReceive_eq environment ready bounded
  rw [same] at running ⊢
  cases converted : Ipc.ipcConvertData memory buff received.result params with
  | none =>
      rw [converted] at running
      contradiction
  | some data =>
      have handed : Ready (handedState state data) (overlay received content) :=
        ⟨ipcConvertData_decodable decodable converted, overlay_length ready.full bounded⟩
      exact (getD_handled _ fun after called => Handler.call_handled called).2 _ handed

/-- Where the format accepts the whole buffer, a handler gets exactly the decoded message. -/
theorem startReceive_accepts (environment : Environment) (ready : Ready state content)
    (bounded : received.content.length ≤ buffMaxNum)
    (accepted : messageFormat.decode (overlay received content) = some (message, rest)) :
    ∃ data, Holding (handedState state data) (overlay received content) message ∧
      (handedState state data).dispatched = state.dispatched ++ [dispatchOf message] ∧
      startReceive state received environment =
        ((handlerOf message.cmdId).call (handedState state data) message.cmdId params
          message.paramTypes environment).getD { handedState state data with running := false } := by
  obtain ⟨memory, decodable, same⟩ := startReceive_eq environment ready bounded
  obtain ⟨data, converted, status, sameCmdId, sameTypes, _, said, kept⟩ :=
    ipcConvertData_accepts decodable received.result accepted
  rw [sameCmdId, sameTypes] at said
  obtain ⟨payloads, read, whole⟩ := readMessage_eq_some.mp said
  refine ⟨data, ⟨⟨kept, overlay_length ready.full bounded⟩, said, ?_⟩, ?_, ?_⟩
  · intro index counted memref
    rw [← sameTypes] at counted memref
    exact ipcConvertData_inside converted counted memref
  · simp only [handedState, dispatchOf, sameCmdId, sameTypes, read]
    rw [← whole]
  · rw [same, converted]
    simp only [sameCmdId, sameTypes]

theorem startReceive_dispatched (environment : Environment) (ready : Ready state content)
    (bounded : received.content.length ≤ buffMaxNum)
    (accepted : messageFormat.decode (overlay received content) = some (message, rest)) :
    (startReceive state received environment).dispatched =
      state.dispatched ++ [dispatchOf message] := by
  obtain ⟨data, _, dispatched, same⟩ :=
    startReceive_accepts environment ready bounded accepted
  rw [same, (getD_handled _ fun after called => Handler.call_handled called).1, dispatched]

/-- Where the format rejects the whole buffer, no handler gets readable parameters. -/
theorem startReceive_rejects (environment : Environment) (ready : Ready state content)
    (bounded : received.content.length ≤ buffMaxNum)
    (rejected : messageFormat.decode (overlay received content) = none) :
    (startReceive state received environment).dispatched = state.dispatched ∨
      ∃ dispatch : Dispatch, dispatch.payloads = none ∧
        (startReceive state received environment).dispatched = state.dispatched ++ [dispatch] := by
  obtain ⟨memory, decodable, same⟩ := startReceive_eq environment ready bounded
  rw [same]
  cases converted : Ipc.ipcConvertData memory buff received.result params with
  | none => exact .inl rfl
  | some data =>
      refine .inr ⟨_, ?_, (getD_handled _ fun after called => Handler.call_handled called).1⟩
      cases read : readPayloads data.memory params data.paramTypes 0 (getParamCount data.paramTypes) with
      | none => rfl
      | some payloads =>
          have said : readMessage data.memory data.cmdId params data.paramTypes =
              some { cmdId := data.cmdId, paramTypes := data.paramTypes, payloads } :=
            readMessage_eq_some.mpr ⟨payloads, read, rfl⟩
          obtain ⟨rest, accepted⟩ := ipcConvertData_sound decodable converted said
          rw [rejected] at accepted
          contradiction

theorem startReceive_extends (environment : Environment) (ready : Ready state content)
    (bounded : received.content.length ≤ buffMaxNum) :
    ∃ calls, (startReceive state received environment).dispatched = state.dispatched ++ calls := by
  cases decoded : messageFormat.decode (overlay received content) with
  | none =>
      rcases startReceive_rejects environment ready bounded decoded with unchanged | unreadable
      · exact ⟨[], by rw [unchanged, List.append_nil]⟩
      · obtain ⟨dispatch, _, appended⟩ := unreadable
        exact ⟨[dispatch], appended⟩
  | some result => exact ⟨_, startReceive_dispatched environment ready bounded decoded⟩

/-- A handler gets a message only from a buffer that begins with its frame. -/
theorem frame_of_dispatched (ready : Ready state content)
    (bounded : received.content.length ≤ buffMaxNum)
    (dispatched : (startReceive state received environment).dispatched =
      state.dispatched ++ [dispatchOf message]) :
    messageFormat.Valid message ∧ message.frame <+: overlay received content := by
  cases decoded : messageFormat.decode (overlay received content) with
  | none =>
      rcases startReceive_rejects environment ready bounded decoded with unchanged | unreadable
      · have lengths := congrArg List.length (dispatched.symm.trans unchanged)
        simp at lengths
      · obtain ⟨dispatch, unread, appended⟩ := unreadable
        have last := List.append_cancel_left (dispatched.symm.trans appended)
        cases last
        contradiction
  | some result =>
      obtain ⟨found, rest⟩ := result
      have appended := startReceive_dispatched environment ready bounded decoded
      have last := List.append_cancel_left (dispatched.symm.trans appended)
      have same := dispatchOf_injective (List.cons.inj last).1
      obtain ⟨valid, split⟩ := messageFormat.decode_sound _ _ _ decoded
      rw [same]
      exact ⟨valid, rest, split.symm⟩

end Receive

end Dwadelib.Ipc.Server
