import Dwadelib.Ipc.Server.Receive
import Dwadelib.Ipc.Convert.Encode

namespace Dwadelib.Ipc.Server

/-! # The answer to a message

`process_sync_command` stores 80 and 90 over the first eight bytes of the second parameter,
also where these are the pointer of a reference, and encodes what the parameters then say.
-/

/-- A parameter after 80 and 90 are stored over its first eight bytes. -/
def answeredPayload : Payload → Option Payload
  | .value union => some (.value (Byte.encodeUInt32 80 ++ (Byte.encodeUInt32 90 ++ union.drop 8)))
  | .memref bytes => if bytes = [] then some (.memref []) else none
  | .skipped => some .skipped

/-- The message `process_sync_command` answers with; `none` when it cannot be encoded. -/
def answered (message : Message) : Option Message :=
  match message.payloads with
  | first :: second :: others =>
      (answeredPayload second).map fun second =>
        { cmdId := message.cmdId ||| cmdRespond, paramTypes := message.paramTypes,
          payloads := first :: second :: others }
  | payloads => some { cmdId := message.cmdId ||| cmdRespond, paramTypes := message.paramTypes, payloads }

/-- The answer is encoded and taken by the socket. -/
def Environment.sends (environment : Environment) : Bool :=
  environment.replyAllocated && environment.sending.socketOpened &&
    environment.sending.addressParsed && environment.sending.connected &&
    environment.sending.sent.isSome

/-- The bytes that go back for a message. -/
def answersTo (message : Message) (environment : Environment) : List (List Byte) :=
  if handlerOf message.cmdId = .processCommandCall ∧ ¬ message.paramTypes &&& paramTypeCallback > 0 then
    match answered message with
    | none => []
    | some reply =>
        if environment.sends then [(ipcSendData reply.frame environment.sending).2] else []
  else []

section Answer

variable {state next : State} {memory first after : Memory} {content : List Byte}
  {cmdId paramTypes : UInt32} {environment : Environment} {received : Received}
  {message reply : Message} {rest : List Byte} {index start count : Nat} {query source : Pointer}
  {payload : Payload} {payloads : List Payload}

theorem read_answered (firstStored : memory.storeUInt32 (paramAt params 1) 80 = some first)
    (stored : first.storeUInt32 ((paramAt params 1).advance 4) 90 = some after)
    (apart : query.block ≠ params.block ∨ query.offset + count ≤ 16 ∨ 24 ≤ query.offset) :
    after.read query count = memory.read query count := by
  have firstApart : Memory.Apart query count (paramAt params 1) (Byte.encodeUInt32 80).length := by
    simp only [Memory.Apart, paramAt_block, paramAt_offset, paramSize, Byte.encodeUInt32_length,
      params] at apart ⊢
    omega
  have secondApart : Memory.Apart query count ((paramAt params 1).advance 4)
      (Byte.encodeUInt32 90).length := by
    simp only [Memory.Apart, Pointer.advance_block, Pointer.advance_offset, paramAt_block,
      paramAt_offset, paramSize, Byte.encodeUInt32_length, params] at apart ⊢
    omega
  rw [Memory.read_write_apart stored query count secondApart,
    Memory.read_write_apart firstStored query count firstApart]

theorem read_second_answered (firstStored : memory.storeUInt32 (paramAt params 1) 80 = some first)
    (stored : first.storeUInt32 ((paramAt params 1).advance 4) 90 = some after) :
    after.read (paramAt params 1) 8 = some (Byte.encodeUInt32 80 ++ Byte.encodeUInt32 90) := by
  have front := Memory.read_write firstStored
  rw [← Memory.read_write_apart stored _ _ (.inr (.inl (by simp)))] at front
  have back := Memory.read_write stored
  rw [show (8 : Nat) = 4 + 4 from rfl, Memory.read_add]
  simp only [Byte.encodeUInt32_length] at front back
  rw [front, Option.bind_some]
  change (after.read ((paramAt params 1).advance 4) 4).bind _ = _
  rw [back]
  rfl

/-- The other parameters say what they said. -/
theorem readPayload_answered (firstStored : memory.storeUInt32 (paramAt params 1) 80 = some first)
    (stored : first.storeUInt32 ((paramAt params 1).advance 4) 90 = some after)
    (inside : isMemref (paramTypeGet paramTypes index) = true →
      ∃ offset, memory.loadPointer (paramAt params index) = some (some (buff.advance offset)))
    (other : index ≠ 1) (held : readPayload memory params paramTypes index = some payload) :
    readPayload after params paramTypes index = some payload := by
  have kept : ∀ shift width : Nat, shift + width ≤ 16 →
      after.read ((paramAt params index).advance shift) width =
        memory.read ((paramAt params index).advance shift) width := by
    intro shift width within
    apply read_answered firstStored stored
    simp only [Pointer.advance_offset, paramAt_offset, paramSize, params]
    omega
  by_cases value : isValue (paramTypeGet paramTypes index) = true
  · obtain ⟨union, loaded, rfl⟩ := (readPayload_value value).mp held
    have whole := kept 0 paramSize (by decide)
    simp only [Int.natCast_zero, Pointer.advance_zero] at whole
    exact (readPayload_value value).mpr ⟨union, whole.trans loaded, rfl⟩
  · by_cases memref : isMemref (paramTypeGet paramTypes index) = true
    · obtain ⟨size, address, bytes, sized, pointed, loaded, rfl⟩ := (readPayload_memref memref).mp held
      obtain ⟨offset, found⟩ := inside memref
      cases found.symm.trans pointed
      have sizeKept := kept 8 4 (by decide)
      have pointerKept := kept 0 8 (by decide)
      simp only [Int.natCast_zero, Pointer.advance_zero] at pointerKept
      refine (readPayload_memref memref).mpr ⟨size, some (buff.advance offset), bytes, ?_, ?_, ?_, rfl⟩
      · exact Memory.loadUInt32_eq_some.mpr (sizeKept.trans (Memory.loadUInt32_eq_some.mp sized))
      · exact Memory.loadPointer_object.mpr (pointerKept.trans (Memory.loadPointer_object.mp pointed))
      · rw [Memory.readThrough_some] at loaded ⊢
        have apart : (buff.advance offset).block ≠ params.block :=
          show buff.block ≠ params.block by decide
        rw [read_answered firstStored stored (.inl apart), loaded]
    · rw [← held]
      simp only [Bool.not_eq_true] at value memref
      rw [readPayload_skipped value memref, readPayload_skipped value memref]

theorem readPayloads_answered (firstStored : memory.storeUInt32 (paramAt params 1) 80 = some first)
    (stored : first.storeUInt32 ((paramAt params 1).advance 4) 90 = some after)
    (inside : ∀ index, start ≤ index → index < start + count →
      isMemref (paramTypeGet paramTypes index) = true →
      ∃ offset, memory.loadPointer (paramAt params index) = some (some (buff.advance offset)))
    (others : 1 < start)
    (held : readPayloads memory params paramTypes start count = some payloads) :
    readPayloads after params paramTypes start count = some payloads := by
  induction count generalizing start payloads with
  | zero => exact held
  | succ count ih =>
      obtain ⟨payload, rest, head, tail, rfl⟩ := readPayloads_eq_some_succ.mp held
      have headKept := readPayload_answered firstStored stored (inside start (by omega) (by omega))
        (by omega) head
      have tailKept := ih (fun index lower upper => inside index (by omega) (by omega)) (by omega) tail
      exact readPayloads_eq_some_succ.mpr ⟨payload, rest, headKept, tailKept, rfl⟩

/-- The second parameter says the fixed answer, or refers to nothing. -/
theorem readPayload_second (firstStored : memory.storeUInt32 (paramAt params 1) 80 = some first)
    (stored : first.storeUInt32 ((paramAt params 1).advance 4) 90 = some after)
    (held : readPayload memory params paramTypes 1 = some payload) :
    match answeredPayload payload with
    | some reply => readPayload after params paramTypes 1 = some reply
    | none => isMemref (paramTypeGet paramTypes 1) = true ∧
        (∃ size, after.loadUInt32 (memrefSizeAt params 1) = some size ∧ size ≠ 0) ∧
        after.loadPointer (paramAt params 1) = some none := by
  have front := read_second_answered firstStored stored
  by_cases value : isValue (paramTypeGet paramTypes 1) = true
  · obtain ⟨union, loaded, rfl⟩ := (readPayload_value value).mp held
    have back : after.read ((paramAt params 1).advance (8 : Nat)) 8 = some (union.drop 8) := by
      rw [read_answered firstStored stored (.inr (.inr (by decide)))]
      rw [show paramSize = 8 + 8 from rfl, Memory.read_add, Option.bind_eq_some_iff] at loaded
      obtain ⟨older, olderLoaded, loaded⟩ := loaded
      obtain ⟨later, laterLoaded, joined⟩ := Option.bind_eq_some_iff.mp loaded
      cases joined
      rw [laterLoaded, List.drop_left' (Memory.length_of_read olderLoaded)]
    refine (readPayload_value value).mpr ⟨_, ?_, rfl⟩
    rw [show paramSize = 8 + 8 from rfl, Memory.read_add, front, Option.bind_some, back,
      Option.bind_some, List.append_assoc]
  · by_cases memref : isMemref (paramTypeGet paramTypes 1) = true
    · obtain ⟨size, address, bytes, sized, pointed, loaded, rfl⟩ := (readPayload_memref memref).mp held
      have length := Memory.length_of_readThrough loaded
      have sizeKept : after.loadUInt32 (memrefSizeAt params 1) = some size := by
        rw [Memory.loadUInt32_eq_some,
          read_answered firstStored stored (.inr (.inr (by decide)))]
        exact Memory.loadUInt32_eq_some.mp sized
      have noPointer : after.loadPointer (paramAt params 1) = some none :=
        Memory.loadPointer_eq_some.mpr ⟨_, front, by decide⟩
      simp only [answeredPayload]
      split
      · rename_i reply accepted
        split at accepted
        · rename_i empty
          cases accepted
          rw [empty] at length
          have zero : size.toNat = 0 := length.symm
          refine (readPayload_memref memref).mpr ⟨size, none, [], sizeKept, noPointer, ?_, rfl⟩
          rw [zero]
          rfl
        · contradiction
      · rename_i accepted
        split at accepted
        · contradiction
        · rename_i nonempty
          refine ⟨memref, ⟨size, sizeKept, ?_⟩, noPointer⟩
          intro zero
          rw [zero] at length
          exact nonempty (List.length_eq_zero_iff.mp length)
    · simp only [Bool.not_eq_true] at value memref
      rw [readPayload_skipped value memref] at held
      cases held
      exact readPayload_skipped value memref

theorem readMessage_answered (firstStored : memory.storeUInt32 (paramAt params 1) 80 = some first)
    (stored : first.storeUInt32 ((paramAt params 1).advance 4) 90 = some after)
    (inside : ∀ index < getParamCount paramTypes, isMemref (paramTypeGet paramTypes index) = true →
      ∃ offset, memory.loadPointer (paramAt params index) = some (some (buff.advance offset)))
    (held : readMessage memory cmdId params paramTypes = some message) :
    match answered message with
    | some reply => readMessage after (cmdId ||| cmdRespond) params paramTypes = some reply
    | none => 1 < getParamCount paramTypes ∧ isMemref (paramTypeGet paramTypes 1) = true ∧
        (∃ size, after.loadUInt32 (memrefSizeAt params 1) = some size ∧ size ≠ 0) ∧
        after.loadPointer (paramAt params 1) = some none := by
  obtain ⟨payloads, read, rfl⟩ := readMessage_eq_some.mp held
  obtain ⟨count, counted⟩ : ∃ count, getParamCount paramTypes = count := ⟨_, rfl⟩
  rw [counted] at read inside ⊢
  cases count with
  | zero =>
      cases read
      exact readMessage_eq_some.mpr ⟨[], by rw [counted]; rfl, rfl⟩
  | succ count =>
      obtain ⟨first, others, head, tail, rfl⟩ := readPayloads_eq_some_succ.mp read
      have headKept := readPayload_answered firstStored stored (inside 0 (by omega)) (by decide) head
      cases count with
      | zero =>
          cases tail
          refine readMessage_eq_some.mpr ⟨[first], ?_, rfl⟩
          rw [counted]
          exact readPayloads_eq_some_succ.mpr ⟨first, [], headKept, rfl, rfl⟩
      | succ count =>
          obtain ⟨second, rest, middle, later, rfl⟩ := readPayloads_eq_some_succ.mp tail
          have secondSaid := readPayload_second firstStored stored middle
          have laterKept := readPayloads_answered firstStored stored
            (fun index _ upper => inside index (by omega)) (by decide) later
          simp only [answered]
          cases accepted : answeredPayload second with
          | none =>
              rw [accepted] at secondSaid
              exact ⟨by omega, secondSaid⟩
          | some reply =>
              rw [accepted] at secondSaid
              refine readMessage_eq_some.mpr ⟨first :: reply :: rest, ?_, rfl⟩
              rw [counted]
              exact readPayloads_eq_some_succ.mpr ⟨first, _, headKept,
                readPayloads_eq_some_succ.mpr ⟨reply, rest, secondSaid, laterKept, rfl⟩, rfl⟩

theorem answeredPayload_encodedSize {reply : Payload}
    (same : answeredPayload payload = some reply) : reply.encodedSize = payload.encodedSize := by
  cases payload with
  | value union =>
      cases same
      rfl
  | memref bytes =>
      simp only [answeredPayload] at same
      split at same
      · rename_i empty
        cases same
        rw [empty]
      · contradiction
  | skipped =>
      cases same
      rfl

theorem answered_encodedSize (same : answered message = some reply) :
    reply.encodedSize = message.encodedSize := by
  unfold answered at same
  split at same
  · rename_i first second others split
    obtain ⟨later, secondSame, rfl⟩ := Option.map_eq_some_iff.mp same
    simp only [Message.encodedSize, split, List.map_cons, List.sum_cons,
      answeredPayload_encodedSize secondSame]
  · cases same
    rfl

theorem ipcSendData_status (bytes : List Byte) (sending : Sending) :
    (ipcSendData bytes sending).1 = if sending.socketOpened && sending.addressParsed &&
      sending.connected && sending.sent.isSome then 0 else 1 := by
  unfold ipcSendData
  cases sending.socketOpened <;> cases sending.addressParsed <;> cases sending.connected <;>
    cases sending.sent <;> rfl

theorem convertAndSend_sent (held : readMessage memory cmdId source paramTypes = some reply)
    (fits : reply.encodedSize < 2147483648) (sends : environment.sends = true) :
    ∃ after freed buffer, convertAndSend memory cmdId source paramTypes environment = some {
        memory := after, buff := some buffer, wire := (ipcSendData reply.frame environment.sending).2 } ∧
      after.free buffer = some freed ∧ memory.Extends freed := by
  simp only [Environment.sends, Bool.and_eq_true] at sends
  obtain ⟨⟨⟨⟨allocated, opened⟩, parsed⟩, connected⟩, sent⟩ := sends
  obtain ⟨after, _, converted, rfl, filled, kept⟩ := ipcConvertParam_frame held fits
  have positive : (reply.encodedSize : Int) ≠ 0 := by
    simp only [Message.encodedSize, uint32Size]
    omega
  have readable := Memory.Valid.of_read filled 0
    (by simp only [Message.encodedSize, uint32Size]; omega)
  obtain ⟨freed, released⟩ := Memory.free_exists rfl (by simpa using readable)
  have status : (ipcSendData reply.frame environment.sending).1 = 0 := by
    simp [ipcSendData_status, opened, parsed, connected, sent]
  refine ⟨after, freed, _, ?_, released, kept.free (Nat.le_refl _) released⟩
  simp only [convertAndSend, allocated, Server.ipcConvertParam, converted, positive, if_false,
    Int.toNat_natCast, filled, status, bind, pure, Option.bind_some]
  rfl

theorem convertAndSend_unsent (held : readMessage memory cmdId source paramTypes = some reply)
    (fits : reply.encodedSize < 2147483648) (unsent : environment.sends = false) :
    ∃ answer, convertAndSend memory cmdId source paramTypes environment = some answer ∧
      answer.buff = none ∧ memory.Extends answer.memory := by
  cases allocated : environment.replyAllocated with
  | false =>
      have failed := ipcConvertParam_malloc_fails held fits
      refine ⟨{ memory, buff := none, wire := [] }, ?_, rfl, Memory.Extends.refl memory⟩
      simp only [convertAndSend, allocated, Server.ipcConvertParam, failed, bind, pure,
        Option.bind_some]
  | true =>
      obtain ⟨after, buffer, converted, _, filled, kept⟩ := ipcConvertParam_frame held fits
      have positive : (reply.encodedSize : Int) ≠ 0 := by
        simp only [Message.encodedSize, uint32Size]
        omega
      have status : (ipcSendData reply.frame environment.sending).1 = 1 := by
        simp only [Environment.sends, allocated, Bool.true_and] at unsent
        simp [ipcSendData_status, unsent]
      refine ⟨⟨after, none, (ipcSendData reply.frame environment.sending).2⟩, ?_, rfl, kept⟩
      simp only [convertAndSend, allocated, Server.ipcConvertParam, converted, positive, if_false,
        Int.toNat_natCast, filled, status, if_true, bind, pure, Option.bind_some]

theorem ipcServerRespondCall_readable (state : State)
    (held : readMessage state.memory cmdId params paramTypes = some reply)
    (fits : reply.encodedSize < 2147483648) (environment : Environment) :
    ∃ next status, ipcServerRespondCall state cmdId params paramTypes environment =
        some (next, status) ∧ next.running = state.running ∧
      next.replies = state.replies ++
        if environment.sends then [(ipcSendData reply.frame environment.sending).2] else [] := by
  cases sends : environment.sends with
  | false =>
      obtain ⟨answer, answered, buffer, _⟩ := convertAndSend_unsent held fits sends
      refine ⟨{ state with memory := answer.memory }, 1, ?_, rfl, by simp⟩
      simp only [ipcServerRespondCall, answered, buffer, bind, pure, Option.bind_some]
  | true =>
      obtain ⟨after, freed, buffer, answered, released, _⟩ := convertAndSend_sent held fits sends
      have called : ipcServerRespondCall state cmdId params paramTypes environment =
          some ({ state with
            memory := freed
            replies := state.replies ++ [(ipcSendData reply.frame environment.sending).2] }, 0) := by
        simp only [ipcServerRespondCall, answered, released, bind, pure, Option.bind_some]
      exact ⟨_, 0, called, rfl, rfl⟩

theorem ipcServerRespondCall_no_pointer (state : State) {status : Int} {size : UInt32}
    (counted : index < getParamCount paramTypes)
    (memref : isMemref (paramTypeGet paramTypes index) = true)
    (sized : state.memory.loadUInt32 (memrefSizeAt params index) = some size) (nonempty : size ≠ 0)
    (noPointer : state.memory.loadPointer (paramAt params index) = some none)
    (called : ipcServerRespondCall state cmdId params paramTypes environment = some (next, status)) :
    next.replies = state.replies := by
  simp only [ipcServerRespondCall, convertAndSend, Server.ipcConvertParam, bind, pure,
    Option.bind_eq_some_iff] at called
  obtain ⟨answer, ⟨⟨after, result⟩, converted, sent⟩, called⟩ := called
  cases result with
  | none =>
      cases sent
      cases called
      rfl
  | some result =>
      exact absurd converted (ipcConvertParam_no_pointer counted memref sized nonempty noPointer)

theorem processAsyncCommand_replies
    (called : processAsyncCommand state cmdId params paramTypes environment = some next) :
    next.replies = state.replies := by
  unfold processAsyncCommand at called
  split at called
  · simp only [recordNode, bind, pure, Option.bind_eq_some_iff, Option.some.injEq] at called
    obtain ⟨⟨recorded, id⟩, ⟨copied, _, same⟩, list, _, processed⟩ := called
    cases same
    obtain ⟨_, _, _, _, answered⟩ := processSyncCommand_eq_some.mp processed
    rw [if_neg Bool.false_ne_true] at answered
    rw [answered]
  · cases called
    rfl

theorem processRegister_replies
    (called : processRegister state cmdId params paramTypes environment = some next) :
    next.replies = state.replies := by
  unfold processRegister at called
  split at called
  · simp only [recordNode, bind, pure, Option.bind_eq_some_iff, Option.some.injEq] at called
    obtain ⟨⟨recorded, id⟩, ⟨copied, _, same⟩, list, _, rfl⟩ := called
    cases same
    rfl
  · cases called
    rfl

theorem answer_stored (whole : memory.Valid params (paramSize * numParams)) :
    ∃ first after, memory.storeUInt32 (paramAt params 1) 80 = some first ∧
      first.storeUInt32 ((paramAt params 1).advance 4) 90 = some after := by
  have room : memory.Valid (paramAt params 1) paramSize :=
    whole.sub (show paramSize * 1 + paramSize ≤ paramSize * numParams by decide)
  have front : memory.Valid (paramAt params 1) (Byte.encodeUInt32 80).length := by
    simpa using room.sub (show 0 + 4 ≤ paramSize by decide)
  obtain ⟨first, firstStored⟩ := Memory.write_exists front
  have later : memory.Valid ((paramAt params 1).advance (4 : Nat)) (Byte.encodeUInt32 90).length :=
    room.sub (show 4 + 4 ≤ paramSize by decide)
  obtain ⟨after, stored⟩ := Memory.write_exists ((Memory.valid_write_iff firstStored).mpr later)
  exact ⟨first, after, firstStored, stored⟩

theorem processSyncCommand_sync (firstStored : state.memory.storeUInt32 (paramAt params 1) 80 = some first)
    (stored : first.storeUInt32 ((paramAt params 1).advance 4) 90 = some after) :
    processSyncCommand state cmdId params paramTypes true environment =
      (ipcServerRespondCall { state with memory := after } (cmdId ||| cmdRespond) params paramTypes
        environment).map Prod.fst := by
  simp only [processSyncCommand, firstStored, stored, bind, pure, Option.bind_some, if_true]
  cases ipcServerRespondCall { state with memory := after } (cmdId ||| cmdRespond) params paramTypes
    environment <;> rfl

/-- What goes back for a message that a handler is called with depends on the message alone. -/
theorem call_replies (holding : Holding state content message)
    (fits : message.encodedSize < 2147483648) :
    (((handlerOf message.cmdId).call state message.cmdId params message.paramTypes
        environment).getD { state with running := false }).replies =
      state.replies ++ answersTo message environment := by
  cases handler : handlerOf message.cmdId with
  | processRegister =>
      simp only [answersTo, handler, reduceCtorEq, false_and, if_false, List.append_nil]
      cases called : Handler.processRegister.call state message.cmdId params message.paramTypes
          environment with
      | none => rfl
      | some next => exact processRegister_replies called
  | processCommandCall =>
      simp only [answersTo, handler, true_and, Handler.call, Server.processCommandCall]
      by_cases callback : message.paramTypes &&& paramTypeCallback > 0
      · rw [if_pos callback, if_neg (not_not.mpr callback), List.append_nil]
        cases called : processAsyncCommand state message.cmdId params message.paramTypes environment with
        | none => rfl
        | some next => exact processAsyncCommand_replies called
      · rw [if_neg callback, if_pos callback]
        obtain ⟨first, after, firstStored, stored⟩ := answer_stored holding.ready.decodable.room
        have said := readMessage_answered firstStored stored holding.inside holding.said
        rw [processSyncCommand_sync firstStored stored]
        cases same : answered message with
        | none =>
            rw [same] at said
            obtain ⟨counted, memref, ⟨size, sized, nonempty⟩, noPointer⟩ := said
            simp only [List.append_nil]
            cases called : ipcServerRespondCall { state with memory := after }
                (message.cmdId ||| cmdRespond) params message.paramTypes environment with
            | none => rfl
            | some result =>
                obtain ⟨next, status⟩ := result
                exact ipcServerRespondCall_no_pointer { state with memory := after }
                  counted memref sized nonempty noPointer called
        | some reply =>
            rw [same] at said
            obtain ⟨next, status, called, _, replies⟩ := ipcServerRespondCall_readable
              { state with memory := after } said
              (by rw [answered_encodedSize same]; exact fits) environment
            rw [called]
            exact replies

/-- A synchronous command whose answer can be encoded does not stop the server. -/
theorem call_running (holding : Holding state content message)
    (fits : message.encodedSize < 2147483648) (same : answered message = some reply)
    (command : handlerOf message.cmdId = .processCommandCall)
    (sync : ¬ message.paramTypes &&& paramTypeCallback > 0) (environment : Environment) :
    (((handlerOf message.cmdId).call state message.cmdId params message.paramTypes
        environment).getD { state with running := false }).running = state.running := by
  obtain ⟨first, after, firstStored, stored⟩ := answer_stored holding.ready.decodable.room
  have said := readMessage_answered firstStored stored holding.inside holding.said
  rw [same] at said
  obtain ⟨next, status, called, running, _⟩ := ipcServerRespondCall_readable
    { state with memory := after } said
    (by rw [answered_encodedSize same]; exact fits) environment
  simp only [command, Handler.call, Server.processCommandCall, if_neg sync]
  rw [processSyncCommand_sync firstStored stored, called]
  exact running

end Answer

end Dwadelib.Ipc.Server
