import Dwadelib.Ipc.Server.Answer
import Dwadelib.Run

namespace Dwadelib.Ipc.Server

/-! # Pending asynchronous calls

The server links a node under the id of the request, but looks for it under the id of the
answer, which has the respond bit set. Beside the server stands the list of what is pending,
as the protocol has it: a request enters at the end, an answer removes the earliest one.
-/

/-- A call of `ipc_server_respond_async_call` for a request; `callbackNode` is what its
uninitialised variable holds. -/
structure AsyncAnswer where
  requestId : UInt32
  params : Pointer
  paramTypes : UInt32
  environment : Environment
  callbackNode : NodePointer

inductive PendingEvent where
  | request (cmdId paramTypes : UInt32) (environment : Environment)
  | register (cmdId paramTypes : UInt32) (environment : Environment)
  | answer (call : AsyncAnswer)

structure Pending where
  server : State
  pending : List Nat

namespace Pending

def start : Pending := { server := initial, pending := [] }

/-- The earliest pending request for a command is answered. -/
def complete (pending : Pending) (requestId : UInt32) : List Nat :=
  match firstWith pending.server.cmdIdOf requestId pending.pending with
  | some id => pending.pending.erase id
  | none => pending.pending

/-- A call that answers; its parameters are readable and fit a message. -/
def stepAnswer (pending : Pending) (call : AsyncAnswer) : Option Pending :=
  match readMessage pending.server.memory (call.requestId ||| cmdRespond) call.params call.paramTypes with
  | none => none
  | some message =>
      if message.encodedSize < 2147483648 then
        match ipcServerRespondAsyncCall pending.server (call.requestId ||| cmdRespond) call.params
            call.paramTypes call.environment call.callbackNode with
        | none => some { pending with server := { pending.server with running := false } }
        | some (server, status) =>
            some { server, pending := if status = 0 then pending.complete call.requestId else pending.pending }
      else none

/-- One step of a server that has made no undefined access. -/
def step (pending : Pending) (event : PendingEvent) : Option Pending :=
  if pending.server.running then
    match event with
    | .request cmdId paramTypes environment =>
        match processAsyncCommand pending.server cmdId params paramTypes environment with
        | none => some { pending with server := { pending.server with running := false } }
        | some server => some {
            server
            pending := if environment.nodeAllocated then
              pending.pending ++ [pending.server.nodes.length] else pending.pending }
    | .register cmdId paramTypes environment =>
        match processRegister pending.server cmdId params paramTypes environment with
        | none => some { pending with server := { pending.server with running := false } }
        | some server => some { pending with server }
    | .answer call => pending.stepAnswer call
  else none

/-- The linked nodes are the pending requests, and nothing else has been freed. -/
structure Exact (pending : Pending) : Prop where
  running : pending.server.running = true
  linked : pending.server.responseCallbackList = pending.pending
  live : ∀ id, (pending.server.cmdIdOf id).isSome ↔
    id ∈ pending.pending ∨ id ∈ pending.server.registerCallbackList

/-- If the answer is sent, then the id of the request has the respond bit itself and a request
under it is pending; or nothing at all is pending and the variable happens to be `NULL`. -/
def Answerable (pending : Pending) : PendingEvent → Prop
  | .request .. => True
  | .register .. => True
  | .answer call => call.environment.sends = true →
      (call.requestId ||| cmdRespond = call.requestId ∧
        (firstWith pending.server.cmdIdOf call.requestId pending.pending).isSome) ∨
      (pending.pending = [] ∧ call.callbackNode = .null)

end Pending

section Pending

variable {pending next : Pending} {state : State} {cmdId paramTypes : UInt32}
  {environment : Environment} {call : AsyncAnswer} {callbackNode : NodePointer} {message : Message}
  {source : Pointer} {id : Nat} {event : PendingEvent}

theorem processAsyncCommand_allocated (cmdId paramTypes : UInt32)
    (room : state.memory.Valid params (paramSize * numParams))
    (live : ∀ id ∈ state.responseCallbackList, (state.cmdIdOf id).isSome)
    (allocated : environment.nodeAllocated = true) :
    ∃ memory copied, memory.Valid params (paramSize * numParams) ∧
      processAsyncCommand state cmdId params paramTypes environment = some { state with
        memory
        nodes := state.nodes ++ [{ cmdId, params := copied, paramTypes, live := true }]
        responseCallbackList := state.responseCallbackList ++ [state.nodes.length] } := by
  obtain ⟨copied, loaded⟩ := room.read_exists
  obtain ⟨first, memory, firstStored, stored⟩ := answer_stored room
  have kept := (Memory.valid_write_iff stored).mpr ((Memory.valid_write_iff firstStored).mpr room)
  refine ⟨memory, copied, kept, ?_⟩
  obtain ⟨node, sameNode⟩ : ∃ node : Node,
      ({ cmdId, params := copied, paramTypes, live := true } : Node) = node := ⟨_, rfl⟩
  have linkable : listAddTail { state with nodes := state.nodes ++ [node] }.cmdIdOf
      state.responseCallbackList state.nodes.length =
        some (state.responseCallbackList ++ [state.nodes.length]) := by
    apply listAddTail_live
    intro id member
    have older := State.lt_of_cmdIdOf (live id member)
    rw [State.cmdIdOf_append state node rfl, if_neg (by omega)]
    exact live id member
  simp only [processAsyncCommand, allocated, if_true, recordNode, loaded, sameNode, linkable,
    processSyncCommand, firstStored, stored, Bool.false_eq_true, if_false, bind, pure,
    Option.bind_some]

theorem processRegister_allocated (cmdId paramTypes : UInt32)
    (room : state.memory.Valid params (paramSize * numParams))
    (live : ∀ id ∈ state.registerCallbackList, (state.cmdIdOf id).isSome)
    (allocated : environment.nodeAllocated = true) :
    ∃ copied, processRegister state cmdId params paramTypes environment = some { state with
        nodes := state.nodes ++ [{ cmdId, params := copied, paramTypes, live := true }]
        registerCallbackList := state.registerCallbackList ++ [state.nodes.length] } := by
  obtain ⟨copied, loaded⟩ := room.read_exists
  refine ⟨copied, ?_⟩
  obtain ⟨node, sameNode⟩ : ∃ node : Node,
      ({ cmdId, params := copied, paramTypes, live := true } : Node) = node := ⟨_, rfl⟩
  have linkable : listAddTail { state with nodes := state.nodes ++ [node] }.cmdIdOf
      state.registerCallbackList state.nodes.length =
        some (state.registerCallbackList ++ [state.nodes.length]) := by
    apply listAddTail_live
    intro id member
    have older := State.lt_of_cmdIdOf (live id member)
    rw [State.cmdIdOf_append state node rfl, if_neg (by omega)]
    exact live id member
  simp only [processRegister, allocated, if_true, recordNode, loaded, sameNode, linkable, bind, pure,
    Option.bind_some]

/-- A call that does not send leaves both lists and every node as they are, and returns 1. -/
theorem respondAsync_unsent (callbackNode : NodePointer)
    (held : readMessage state.memory cmdId source paramTypes = some message)
    (fits : message.encodedSize < 2147483648) (unsent : environment.sends = false) :
    ∃ memory, state.memory.Extends memory ∧
      ipcServerRespondAsyncCall state cmdId source paramTypes environment callbackNode =
        some ({ state with memory }, 1) := by
  obtain ⟨answer, answered, buffer, kept⟩ := convertAndSend_unsent held fits unsent
  refine ⟨answer.memory, kept, ?_⟩
  simp only [ipcServerRespondAsyncCall, answered, buffer, bind, pure, Option.bind_some]

/-- A search that finds a node unlinks it and frees it. -/
theorem respondAsync_found (callbackNode : NodePointer)
    (held : readMessage state.memory cmdId source paramTypes = some message)
    (fits : message.encodedSize < 2147483648) (sends : environment.sends = true)
    (live : ∀ id ∈ state.responseCallbackList, (state.cmdIdOf id).isSome)
    (found : firstWith state.cmdIdOf cmdId state.responseCallbackList = some id) :
    ∃ memory replies, state.memory.Extends memory ∧
      ipcServerRespondAsyncCall state cmdId source paramTypes environment callbackNode =
        some ({ state with
          memory
          replies
          nodes := state.nodes.modify id fun node => { node with live := false }
          responseCallbackList := state.responseCallbackList.erase id }, 0) := by
  obtain ⟨after, freed, buffer, answered, released, kept⟩ := convertAndSend_sent held fits sends
  obtain ⟨wire, sameWire⟩ : ∃ wire, (ipcSendData message.frame environment.sending).2 = wire := ⟨_, rfl⟩
  have alive := live id (mem_of_firstWith found).1
  refine ⟨freed, state.replies ++ [wire], kept, ?_⟩
  have searched : searchList { state with memory := after, replies := state.replies ++ [wire] }.cmdIdOf
      cmdId state.responseCallbackList callbackNode = some (.node id, true) :=
    searchList_found live found callbackNode
  have unlinked : listDelete { state with memory := after, replies := state.replies ++ [wire] }.cmdIdOf
      state.responseCallbackList id = some (state.responseCallbackList.erase id) :=
    listDelete_live live
  have here : ({ state with
      memory := after
      replies := state.replies ++ [wire]
      responseCallbackList := state.responseCallbackList.erase id } : State).cmdIdOf id =
        state.cmdIdOf id := rfl
  simp only [ipcServerRespondAsyncCall, answered, sameWire, searched, unlinked, State.freeNode, here,
    alive, if_true, released, bind, pure, Option.bind_some]

/-- A search that finds nothing frees what its variable points to, and unlinks nothing. -/
theorem respondAsync_missed (callbackNode : NodePointer)
    (held : readMessage state.memory cmdId source paramTypes = some message)
    (fits : message.encodedSize < 2147483648) (sends : environment.sends = true)
    (live : ∀ id ∈ state.responseCallbackList, (state.cmdIdOf id).isSome)
    (missed : firstWith state.cmdIdOf cmdId state.responseCallbackList = none) :
    ∃ memory replies, state.memory.Extends memory ∧
      ipcServerRespondAsyncCall state cmdId source paramTypes environment callbackNode =
        (state.freeNode (state.responseCallbackList.getLast?.elim callbackNode .node)).map
          fun after => ({ after with memory, replies }, 0) := by
  obtain ⟨after, freed, buffer, answered, released, kept⟩ := convertAndSend_sent held fits sends
  obtain ⟨wire, sameWire⟩ : ∃ wire, (ipcSendData message.frame environment.sending).2 = wire := ⟨_, rfl⟩
  refine ⟨freed, state.replies ++ [wire], kept, ?_⟩
  have searched : searchList { state with memory := after, replies := state.replies ++ [wire] }.cmdIdOf
      cmdId state.responseCallbackList callbackNode =
        some (state.responseCallbackList.getLast?.elim callbackNode .node, false) :=
    searchList_missed live missed callbackNode
  simp only [ipcServerRespondAsyncCall, answered, sameWire, searched, bind, pure, Option.bind_some]
  cases state.responseCallbackList.getLast?.elim callbackNode NodePointer.node with
  | null =>
      simp only [State.freeNode, released, Option.bind_some, Option.map_some]
  | wild => rfl
  | node id =>
      have here : ({ state with memory := after, replies := state.replies ++ [wire] } : State).cmdIdOf id =
          state.cmdIdOf id := rfl
      simp only [State.freeNode, here]
      by_cases alive : (state.cmdIdOf id).isSome = true
      · simp only [if_pos alive, released, Option.bind_some, Option.map_some]
      · simp only [if_neg alive, Option.bind_none, Option.map_none]

/-- What every run keeps beside `Exact`. -/
structure Pending.Sound (pending : Pending) : Prop where
  room : pending.server.memory.Valid params (paramSize * numParams)
  distinct : pending.pending.Nodup
  apart : ∀ id ∈ pending.pending, id ∉ pending.server.registerCallbackList

theorem sound_start : Pending.start.Sound :=
  ⟨ready_initial.decodable.room, .nil, fun _ member => by contradiction⟩

theorem exact_start : Pending.start.Exact := by
  refine ⟨rfl, rfl, ?_⟩
  intro id
  simp [Pending.start, initial, State.cmdIdOf]

theorem Pending.Exact.linked_live (exact_ : pending.Exact) :
    ∀ id ∈ pending.server.responseCallbackList, (pending.server.cmdIdOf id).isSome := by
  intro id member
  rw [exact_.linked] at member
  exact (exact_.live id).mpr (.inl member)

theorem Pending.Exact.newest (exact_ : pending.Exact) :
    pending.server.nodes.length ∉ pending.pending ∧
      pending.server.nodes.length ∉ pending.server.registerCallbackList := by
  constructor
  · intro member
    exact absurd (State.lt_of_cmdIdOf ((exact_.live _).mpr (.inl member))) (Nat.lt_irrefl _)
  · intro member
    exact absurd (State.lt_of_cmdIdOf ((exact_.live _).mpr (.inr member))) (Nat.lt_irrefl _)

/-- Recording a request or a registration keeps the two lists in step, from any such state. -/
theorem record_step (sound : pending.Sound) (exact_ : pending.Exact)
    (recording : ∀ call, event ≠ .answer call) (taken : pending.step event = some next) :
    next.Exact ∧ next.Sound := by
  simp only [Pending.step, exact_.running, if_true] at taken
  cases event with
  | request cmdId paramTypes environment =>
      simp only at taken
      cases allocated : environment.nodeAllocated with
      | false =>
          simp only [processAsyncCommand, allocated, Bool.false_eq_true, if_false,
            Option.some.injEq] at taken
          subst next
          exact ⟨exact_, sound⟩
      | true =>
          obtain ⟨memory, copied, kept, processed⟩ :=
            processAsyncCommand_allocated cmdId paramTypes sound.room exact_.linked_live allocated
          simp only [processed, allocated, if_true, Option.some.injEq] at taken
          subst next
          obtain ⟨fresh, unregistered⟩ := exact_.newest
          refine ⟨⟨exact_.running, by simp only [exact_.linked], ?_⟩, kept, ?_, ?_⟩
          · intro id
            rw [State.cmdIdOf_append pending.server _ rfl]
            by_cases newest : id = pending.server.nodes.length
            · simp [newest]
            · simp [newest, exact_.live id]
          · exact List.nodup_append.mpr ⟨sound.distinct, List.nodup_singleton _, by
              intro id member other single same
              rw [List.mem_singleton] at single
              rw [same, single] at member
              exact fresh member⟩
          · intro id member
            rcases List.mem_append.mp member with older | newest
            · exact sound.apart id older
            · rw [List.mem_singleton.mp newest]
              exact unregistered
  | register cmdId paramTypes environment =>
      simp only at taken
      cases allocated : environment.nodeAllocated with
      | false =>
          simp only [processRegister, allocated, Bool.false_eq_true, if_false,
            Option.some.injEq] at taken
          subst next
          exact ⟨exact_, sound⟩
      | true =>
          obtain ⟨copied, processed⟩ := processRegister_allocated cmdId paramTypes sound.room
            (fun id member => (exact_.live id).mpr (.inr member)) allocated
          simp only [processed, Option.some.injEq] at taken
          subst next
          obtain ⟨fresh, unregistered⟩ := exact_.newest
          refine ⟨⟨exact_.running, exact_.linked, ?_⟩, sound.room, sound.distinct, ?_⟩
          · intro id
            rw [State.cmdIdOf_append pending.server _ rfl]
            by_cases newest : id = pending.server.nodes.length
            · simp [newest]
            · simp [newest, exact_.live id]
          · intro id member registered
            rcases List.mem_append.mp registered with older | newest
            · exact sound.apart id member older
            · rw [List.mem_singleton.mp newest] at member
              exact fresh member
  | answer call => exact absurd rfl (recording call)

/-- A hit: the right node is released exactly when the id of the request is the one looked for. -/
theorem found_step (next : Pending) (sound : pending.Sound) (exact_ : pending.Exact)
    (found : firstWith pending.server.cmdIdOf (call.requestId ||| cmdRespond)
      pending.server.responseCallbackList = some id)
    (sends : call.environment.sends = true)
    (nodes : next.server.nodes = pending.server.nodes.modify id fun node => { node with live := false })
    (running : next.server.running = true)
    (linked : next.server.responseCallbackList = pending.server.responseCallbackList.erase id)
    (registered : next.server.registerCallbackList = pending.server.registerCallbackList)
    (completed : next.pending = pending.complete call.requestId) :
    (next.Exact ↔ pending.Answerable (.answer call)) ∧
      (pending.Answerable (.answer call) → next.pending = pending.pending.erase id) := by
  rw [exact_.linked] at found linked
  obtain ⟨member, known⟩ := mem_of_firstWith found
  by_cases same : call.requestId ||| cmdRespond = call.requestId
  · rw [same] at found
    have erased : next.pending = pending.pending.erase id := by
      rw [completed, Pending.complete, found]
    have answerable : pending.Answerable (.answer call) := fun _ =>
      .inl ⟨same, by rw [found]; rfl⟩
    have live : ∀ other, (next.server.cmdIdOf other).isSome ↔
        other ∈ next.pending ∨ other ∈ next.server.registerCallbackList := by
      intro other
      rw [State.cmdIdOf_release pending.server id nodes, erased, registered]
      by_cases here : other = id
      · simp [here, sound.distinct.not_mem_erase, sound.apart id member]
      · rw [if_neg here, exact_.live other, List.mem_erase_of_ne here]
    exact ⟨iff_of_true ⟨running, by rw [linked, erased], live⟩ answerable, fun _ => erased⟩
  · have unanswerable : ¬ pending.Answerable (.answer call) := by
      intro answerable
      rcases answerable sends with hit | nothing
      · exact same hit.1
      · rw [nothing.1] at member
        contradiction
    have stays : id ∈ pending.complete call.requestId := by
      unfold Pending.complete
      cases earliest : firstWith pending.server.cmdIdOf call.requestId pending.pending with
      | none => exact member
      | some other =>
          have otherKnown := (mem_of_firstWith earliest).2
          have different : id ≠ other := by
            intro equal
            rw [equal, otherKnown] at known
            exact same (Option.some.inj known).symm
          exact (List.mem_erase_of_ne different).mpr member
    have broken : ¬ next.Exact := by
      intro exactNext
      rw [← completed, ← exactNext.linked, linked] at stays
      exact absurd stays sound.distinct.not_mem_erase
    exact ⟨iff_of_false broken unanswerable, fun answerable => absurd answerable unanswerable⟩

/-- A miss in a list that is not empty: the last linked node is freed, whatever it is. -/
theorem missed_step (next : Pending) (sound : pending.Sound) (exact_ : pending.Exact) {last : Nat}
    (missed : firstWith pending.server.cmdIdOf (call.requestId ||| cmdRespond)
      pending.server.responseCallbackList = none)
    (sends : call.environment.sends = true)
    (ends : pending.server.responseCallbackList.getLast? = some last)
    (nodes : next.server.nodes = pending.server.nodes.modify last fun node => { node with live := false })
    (linked : next.server.responseCallbackList = pending.server.responseCallbackList)
    (completed : next.pending = pending.complete call.requestId) :
    ¬ next.Exact ∧ ¬ pending.Answerable (.answer call) := by
  rw [exact_.linked] at missed linked ends
  have member := List.mem_of_getLast? ends
  constructor
  · intro exactNext
    have unchanged := exactNext.linked
    rw [linked, completed, Pending.complete] at unchanged
    cases earliest : firstWith pending.server.cmdIdOf call.requestId pending.pending with
    | none =>
        have alive := (exactNext.live last).mpr (.inl (by
          rw [completed, Pending.complete, earliest]
          exact member))
        rw [State.cmdIdOf_release pending.server last nodes, if_pos rfl] at alive
        contradiction
    | some other =>
        rw [earliest] at unchanged
        have present := (mem_of_firstWith earliest).1
        rw [unchanged] at present
        exact absurd present sound.distinct.not_mem_erase
  · intro answerable
    rcases answerable sends with hit | nothing
    · rw [hit.1] at missed
      rw [missed] at hit
      exact absurd hit.2 Bool.false_ne_true
    · rw [nothing.1] at member
      contradiction

/-- With nothing pending it all depends on what the variable happens to hold. -/
theorem answerable_nothing (nothing : pending.pending = []) (sends : call.environment.sends = true) :
    pending.Answerable (.answer call) ↔ call.callbackNode = .null := by
  constructor
  · intro answerable
    rcases answerable sends with hit | unassigned
    · rw [nothing] at hit
      exact absurd hit.2 Bool.false_ne_true
    · exact unassigned.2
  · intro null _
    exact .inr ⟨nothing, null⟩

/-- A search over an empty list: `free` gets what the variable held. -/
theorem empty_step (next : Pending) (exact_ : pending.Exact) {freed : State} {memory : Memory}
    {replies : List (List Byte)} (nothing : pending.pending = [])
    (released : pending.server.freeNode call.callbackNode = some freed)
    (same : next = {
      server := { freed with memory, replies }
      pending := pending.complete call.requestId }) :
    next.Exact ↔ call.callbackNode = .null := by
  have empty : pending.server.responseCallbackList = [] := by rw [exact_.linked, nothing]
  have unanswered : pending.complete call.requestId = [] := by
    rw [Pending.complete, nothing]
    rfl
  subst same
  cases variable_ : call.callbackNode with
  | null =>
      rw [variable_] at released
      cases released
      apply iff_of_true _ rfl
      refine ⟨exact_.running, by rw [unanswered, empty], ?_⟩
      intro id
      rw [unanswered, ← nothing]
      exact exact_.live id
  | wild =>
      rw [variable_] at released
      contradiction
  | node id =>
      rw [variable_, State.freeNode] at released
      split at released
      · rename_i alive
        cases released
        have registered : id ∈ pending.server.registerCallbackList := by
          rcases (exact_.live id).mp alive with waiting | registered
          · rw [nothing] at waiting
            contradiction
          · exact registered
        apply iff_of_false
        · intro exactNext
          have kept := (exactNext.live id).mpr (.inr registered)
          rw [State.cmdIdOf_release pending.server id rfl, if_pos rfl] at kept
          contradiction
        · exact fun null => by contradiction
      · contradiction

section Answer

variable (sound : pending.Sound) (exact_ : pending.Exact)
  (held : readMessage pending.server.memory (call.requestId ||| cmdRespond) call.params
    call.paramTypes = some message)
  (fits : message.encodedSize < 2147483648) (taken : pending.stepAnswer call = some next)
include sound exact_ held fits taken

theorem answer_unsent (sends : call.environment.sends = false) :
    (next.Exact ↔ pending.Answerable (.answer call)) ∧
      (pending.Answerable (.answer call) → next.Sound) := by
  obtain ⟨memory, kept, called⟩ := respondAsync_unsent call.callbackNode held fits sends
  simp only [Pending.stepAnswer, held, if_pos fits, called] at taken
  cases taken
  have answerable : pending.Answerable (.answer call) := fun sent => by
    rw [sends] at sent
    contradiction
  exact ⟨iff_of_true ⟨exact_.running, exact_.linked, exact_.live⟩ answerable,
    fun _ => ⟨kept.valid sound.room, sound.distinct, sound.apart⟩⟩

theorem answer_found (sends : call.environment.sends = true)
    (found : firstWith pending.server.cmdIdOf (call.requestId ||| cmdRespond)
      pending.server.responseCallbackList = some id) :
    (next.Exact ↔ pending.Answerable (.answer call)) ∧
      (pending.Answerable (.answer call) → next.Sound) := by
  obtain ⟨memory, replies, kept, called⟩ :=
    respondAsync_found call.callbackNode held fits sends exact_.linked_live found
  simp only [Pending.stepAnswer, held, if_pos fits, called, if_true, Option.some.injEq] at taken
  obtain ⟨agree, erased⟩ := found_step next sound exact_ found sends (by rw [← taken])
    (by rw [← taken]; exact exact_.running) (by rw [← taken]) (by rw [← taken]) (by rw [← taken])
  apply And.intro agree
  intro answerable
  have completed := erased answerable
  constructor
  · rw [← taken]
    exact kept.valid sound.room
  · rw [completed]
    exact sound.distinct.erase id
  · intro other member
    rw [completed] at member
    rw [← taken]
    exact sound.apart other (List.mem_of_mem_erase member)

theorem answer_missed {last : Nat} (sends : call.environment.sends = true)
    (missed : firstWith pending.server.cmdIdOf (call.requestId ||| cmdRespond)
      pending.server.responseCallbackList = none)
    (ends : pending.server.responseCallbackList.getLast? = some last) :
    (next.Exact ↔ pending.Answerable (.answer call)) ∧
      (pending.Answerable (.answer call) → next.Sound) := by
  obtain ⟨memory, replies, kept, called⟩ :=
    respondAsync_missed call.callbackNode held fits sends exact_.linked_live missed
  have alive := exact_.linked_live last (List.mem_of_getLast? ends)
  simp only [Pending.stepAnswer, held, if_pos fits, called, ends, Option.elim_some, State.freeNode,
    if_pos alive, Option.map_some, if_true, Option.some.injEq] at taken
  obtain ⟨broken, unanswerable⟩ := missed_step next sound exact_ missed sends ends
    (by rw [← taken]) (by rw [← taken]) (by rw [← taken])
  exact ⟨iff_of_false broken unanswerable, fun answerable => absurd answerable unanswerable⟩

theorem answer_empty (sends : call.environment.sends = true)
    (missed : firstWith pending.server.cmdIdOf (call.requestId ||| cmdRespond)
      pending.server.responseCallbackList = none)
    (ends : pending.server.responseCallbackList.getLast? = none) :
    (next.Exact ↔ pending.Answerable (.answer call)) ∧
      (pending.Answerable (.answer call) → next.Sound) := by
  obtain ⟨memory, replies, kept, called⟩ :=
    respondAsync_missed call.callbackNode held fits sends exact_.linked_live missed
  have nothing : pending.pending = [] := by
    rw [← exact_.linked, List.getLast?_eq_none_iff.mp ends]
  simp only [Pending.stepAnswer, held, if_pos fits, called, ends, Option.elim_none] at taken
  rw [answerable_nothing nothing sends]
  cases released : pending.server.freeNode call.callbackNode with
  | none =>
      rw [released] at taken
      cases taken
      have pointed : call.callbackNode ≠ .null := by
        intro null
        rw [null] at released
        contradiction
      apply And.intro (iff_of_false _ pointed)
      · exact fun null => absurd null pointed
      · intro exactNext
        exact absurd exactNext.running Bool.false_ne_true
  | some freed =>
      simp only [released, Option.map_some, if_true, Option.some.injEq] at taken
      apply And.intro (empty_step next exact_ nothing released taken.symm)
      intro null
      rw [null] at released
      cases released
      subst next
      have none_ : pending.complete call.requestId = [] := by
        rw [Pending.complete, nothing]
        rfl
      constructor
      · exact kept.valid sound.room
      · rw [none_]
        exact .nil
      · intro other member
        rw [none_] at member
        contradiction

end Answer

/-- The step rule for an answer. -/
theorem answer_step (sound : pending.Sound) (exact_ : pending.Exact)
    (taken : pending.stepAnswer call = some next) :
    (next.Exact ↔ pending.Answerable (.answer call)) ∧
      (pending.Answerable (.answer call) → next.Sound) := by
  cases held : readMessage pending.server.memory (call.requestId ||| cmdRespond) call.params
      call.paramTypes with
  | none =>
      simp only [Pending.stepAnswer, held] at taken
      contradiction
  | some message =>
      by_cases fits : message.encodedSize < 2147483648
      · cases sends : call.environment.sends with
        | false => exact answer_unsent sound exact_ held fits taken sends
        | true =>
            cases found : firstWith pending.server.cmdIdOf (call.requestId ||| cmdRespond)
                pending.server.responseCallbackList with
            | some id => exact answer_found sound exact_ held fits taken sends found
            | none =>
                cases ends : pending.server.responseCallbackList.getLast? with
                | some last => exact answer_missed sound exact_ held fits taken sends found ends
                | none => exact answer_empty sound exact_ held fits taken sends found ends
      · simp only [Pending.stepAnswer, held, if_neg fits] at taken
        contradiction

/-- Over every run the linked nodes are the accepted and not yet answered requests, with one
node unlinked and freed for each answer, exactly when every answer sent is answerable. -/
theorem exact_iff_answerable (events : List PendingEvent) :
    Run.Always Pending.step Pending.Exact Pending.start events ↔
      Run.Along Pending.step Pending.Answerable Pending.start events := by
  have stepRule : ∀ pending event next, Pending.Sound pending → pending.Exact →
      pending.step event = some next →
      (next.Exact ↔ pending.Answerable event) ∧ (pending.Answerable event → next.Sound) := by
    intro pending event next sound exact_ taken
    cases event with
    | request cmdId paramTypes environment =>
        have recorded := record_step sound exact_ (fun call same => by contradiction) taken
        exact ⟨iff_of_true recorded.1 trivial, fun _ => recorded.2⟩
    | register cmdId paramTypes environment =>
        have recorded := record_step sound exact_ (fun call same => by contradiction) taken
        exact ⟨iff_of_true recorded.1 trivial, fun _ => recorded.2⟩
    | answer call =>
        simp only [Pending.step, exact_.running, if_true] at taken
        exact answer_step sound exact_ taken
  apply Run.always_iff_along _ _ sound_start exact_start
  · intro pending event next sound exact_ taken
    exact (stepRule pending event next sound exact_ taken).1
  · intro pending event next sound exact_ answerable taken
    exact (stepRule pending event next sound exact_ taken).2 answerable

/-- Two requests, then the answer to the first as the command handler forms its id. -/
private def requestsAndAnswer : List PendingEvent :=
  let environment := ⟨true, true, ⟨true, true, true, some 8⟩⟩
  [.request cmdRequestInit paramTypeCallback environment,
    .request cmdRequestOpen paramTypeCallback environment,
    .answer { requestId := cmdRequestInit, params, paramTypes := 0, environment, callbackNode := .null }]

/-- Both nodes stay linked, and the node of the second request is freed. -/
theorem answer_frees_other_request :
    ¬ Run.Always Pending.step Pending.Exact Pending.start requestsAndAnswer := by
  intro always
  have outcome : (Run.run Pending.step Pending.start requestsAndAnswer).map (fun pending =>
      (pending.server.responseCallbackList, pending.pending, pending.server.cmdIdOf 1)) =
        some ([0, 1], [1], none) := by
    decide +kernel
  obtain ⟨final, reached, lists⟩ := Option.map_eq_some_iff.mp outcome
  have linked := (always _ final (List.prefix_refl _) reached).linked
  simp only [Prod.mk.injEq] at lists
  rw [lists.1, lists.2.1] at linked
  exact absurd linked (by decide)

end Pending

end Dwadelib.Ipc.Server
