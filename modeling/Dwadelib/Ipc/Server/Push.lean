import Dwadelib.Ipc.Server.Pending
import Dwadelib.Ipc.Convert.Passes

namespace Dwadelib.Ipc.Server

/-! # Pushes to registered clients

`ipc_server_respond_register` tests the variable of its search loop, not whether the loop
found anything. Beside the server stand the ids that were recorded, and the ids that were
pushed although they were not.
-/

/-- A call of `ipc_server_respond_register`; `callbackNode` is what its uninitialised variable
holds. -/
structure Push where
  cmdId : UInt32
  params : Pointer
  paramTypes : UInt32
  environment : Environment
  callbackNode : NodePointer

/-- The length of the frame does not wrap to one that can be allocated. -/
def Push.Encodable (call : Push) (message : Message) : Prop :=
  message.encodedSize < 4294967296 ∨ 2147483648 ≤ message.encodedSize % 4294967296 ∨
    call.environment.replyAllocated = false

inductive PushEvent where
  | register (cmdId paramTypes : UInt32) (environment : Environment)
  | push (call : Push)

structure Pushing where
  server : State
  recorded : List UInt32
  stray : List UInt32

namespace Pushing

def start : Pushing := { server := initial, recorded := [], stray := [] }

/-- The call returned 1, sent nothing and left the list of registrations as it was. -/
def refused (before after : State) (status : Int) : Bool :=
  status == 1 && after.replies == before.replies &&
    after.registerCallbackList == before.registerCallbackList

/-- A call whose parameters are readable. -/
def stepPush (pushing : Pushing) (call : Push) : Option Pushing :=
  match readMessage pushing.server.memory call.cmdId call.params call.paramTypes with
  | none => none
  | some _ =>
      match ipcServerRespondRegister pushing.server call.cmdId call.params call.paramTypes
          call.environment call.callbackNode with
      | none => some { pushing with server := { pushing.server with running := false } }
      | some (server, status) => some { pushing with
          server
          stray := if call.cmdId ∈ pushing.recorded || refused pushing.server server status then
            pushing.stray else pushing.stray ++ [call.cmdId] }

/-- One step of a server that has made no undefined access. -/
def step (pushing : Pushing) (event : PushEvent) : Option Pushing :=
  if pushing.server.running then
    match event with
    | .register cmdId paramTypes environment =>
        match processRegister pushing.server cmdId params paramTypes environment with
        | none => some { pushing with server := { pushing.server with running := false } }
        | some server => some { pushing with
            server
            recorded := if environment.nodeAllocated then pushing.recorded ++ [cmdId]
              else pushing.recorded }
    | .push call => pushing.stepPush call
  else none

/-- Every push so far was for a recorded id or was refused. -/
structure Registered (pushing : Pushing) : Prop where
  running : pushing.server.running = true
  none_stray : pushing.stray = []

/-- Nothing at all is recorded and the variable happens to be `NULL`; or the frame can be encoded,
and the push is for a recorded id, or could not be sent, or is too long to be allocated. -/
def Refusable (pushing : Pushing) : PushEvent → Prop
  | .register .. => True
  | .push call => (pushing.recorded = [] ∧ call.callbackNode = .null) ∨
      ∃ message, readMessage pushing.server.memory call.cmdId call.params call.paramTypes =
          some message ∧ call.Encodable message ∧
        (call.cmdId ∈ pushing.recorded ∨ call.environment.sends = false ∨
          2147483648 ≤ message.encodedSize)

/-- The linked nodes are live and carry the recorded ids. -/
structure Linked (pushing : Pushing) : Prop where
  room : pushing.server.memory.Valid params (paramSize * numParams)
  ids : pushing.server.registerCallbackList.map pushing.server.cmdIdOf = pushing.recorded.map some

end Pushing

section Push

variable {pushing next : Pushing} {state : State} {cmdId paramTypes : UInt32}
  {environment : Environment} {call : Push} {message : Message} {source : Pointer}
  {event : PushEvent}

theorem Pushing.Linked.live (linked : pushing.Linked) :
    ∀ id ∈ pushing.server.registerCallbackList, (pushing.server.cmdIdOf id).isSome := by
  intro id member
  have listed : pushing.server.cmdIdOf id ∈ pushing.recorded.map some := by
    rw [← linked.ids]
    exact List.mem_map_of_mem member
  obtain ⟨found, _, same⟩ := List.mem_map.mp listed
  rw [← same]
  rfl

/-- The search finds a node exactly for the recorded ids. -/
theorem Pushing.Linked.firstWith_isSome (linked : pushing.Linked) :
    (firstWith pushing.server.cmdIdOf cmdId pushing.server.registerCallbackList).isSome ↔
      cmdId ∈ pushing.recorded := by
  have listed : some cmdId ∈ pushing.server.registerCallbackList.map pushing.server.cmdIdOf ↔
      cmdId ∈ pushing.recorded := by
    rw [linked.ids]
    simp
  rw [← listed, List.mem_map, firstWith, List.find?_isSome]
  simp

theorem Pushing.Linked.empty_iff (linked : pushing.Linked) :
    pushing.server.registerCallbackList = [] ↔ pushing.recorded = [] := by
  have lengths := congrArg List.length linked.ids
  rw [List.length_map, List.length_map] at lengths
  rw [← List.length_eq_zero_iff, ← List.length_eq_zero_iff, lengths]

/-- The test after the search passes unless the list is empty and the variable is `NULL`. -/
theorem respondRegister_eq (linked : pushing.Linked) (cmdId : UInt32) (source : Pointer)
    (paramTypes : UInt32) (environment : Environment) (callbackNode : NodePointer) :
    ipcServerRespondRegister pushing.server cmdId source paramTypes environment callbackNode =
      if pushing.recorded = [] ∧ callbackNode = .null then some (pushing.server, 1)
      else ipcServerRespondCall pushing.server cmdId source paramTypes environment := by
  cases found : firstWith pushing.server.cmdIdOf cmdId pushing.server.registerCallbackList with
  | some id =>
      have recorded := linked.firstWith_isSome.mp (show (firstWith _ cmdId _).isSome by rw [found]; rfl)
      have filled : ¬ (pushing.recorded = [] ∧ callbackNode = .null) := by
        intro both
        rw [both.1] at recorded
        contradiction
      rw [if_neg filled]
      simp only [ipcServerRespondRegister, searchList_found linked.live found, bind, pure,
        Option.bind_some, reduceCtorEq, if_false]
  | none =>
      simp only [ipcServerRespondRegister, searchList_missed linked.live found, bind, pure,
        Option.bind_some]
      cases ends : pushing.server.registerCallbackList.getLast? with
      | none =>
          have nothing := linked.empty_iff.mp (List.getLast?_eq_none_iff.mp ends)
          rw [Option.elim_none]
          by_cases null : callbackNode = .null
          · rw [if_pos null, if_pos ⟨nothing, null⟩]
          · rw [if_neg null, if_neg fun both => null both.2]
      | some last =>
          have filled : pushing.recorded ≠ [] := by
            intro nothing
            rw [linked.empty_iff.mpr nothing] at ends
            contradiction
          simp only [Option.elim_some, reduceCtorEq, if_false, filled, false_and]

/-- What follows the test, on parameters that fit a message. -/
theorem respondCall_refused (held : readMessage state.memory cmdId source paramTypes = some message)
    (fits : message.encodedSize < 2147483648) (environment : Environment) :
    ∃ memory replies status, state.memory.Extends memory ∧
      ipcServerRespondCall state cmdId source paramTypes environment =
        some ({ state with memory, replies }, status) ∧
      Pushing.refused state { state with memory, replies } status = !environment.sends := by
  cases sends : environment.sends with
  | false =>
      obtain ⟨answer, answered, buffer, kept⟩ := convertAndSend_unsent held fits sends
      refine ⟨answer.memory, state.replies, 1, kept, ?_, ?_⟩
      · simp only [ipcServerRespondCall, answered, buffer, bind, pure, Option.bind_some]
      · simp [Pushing.refused]
  | true =>
      obtain ⟨after, freed, buffer, answered, released, kept⟩ := convertAndSend_sent held fits sends
      refine ⟨freed, state.replies ++ [(ipcSendData message.frame environment.sending).2], 0, kept, ?_, ?_⟩
      · simp only [ipcServerRespondCall, answered, released, bind, pure, Option.bind_some]
      · simp [Pushing.refused]

/-- A frame that is too long is refused where it can be encoded, and undefined elsewhere. -/
theorem respondCall_long
    (held : readMessage state.memory call.cmdId call.params call.paramTypes = some message)
    (long : 2147483648 ≤ message.encodedSize) :
    (call.Encodable message →
      ipcServerRespondCall state call.cmdId call.params call.paramTypes call.environment =
        some (state, 1)) ∧
    (¬ call.Encodable message →
      ipcServerRespondCall state call.cmdId call.params call.paramTypes call.environment = none) := by
  have wrapped := CInt.convert_natCast_mod message.encodedSize
  constructor
  · intro encodable
    have refused : call.environment.replyAllocated = false ∨ CInt.convert message.encodedSize < 0 := by
      rcases encodable with short | negative | failed
      · rw [if_neg (by omega)] at wrapped
        exact .inr (by omega)
      · rw [if_neg (by omega)] at wrapped
        exact .inr (by omega)
      · exact .inl failed
    have unallocated := ipcConvertParam_unallocated held refused
    simp only [ipcServerRespondCall, convertAndSend, Server.ipcConvertParam, unallocated, bind, pure,
      Option.bind_some]
  · intro wraps
    simp only [Push.Encodable, not_or, Bool.not_eq_false, Nat.not_lt, Nat.not_le] at wraps
    obtain ⟨beyond, allocated, granted⟩ := wraps
    have overflows := ipcConvertParam_overflows held beyond allocated
    simp only [ipcServerRespondCall, convertAndSend, Server.ipcConvertParam, granted, overflows, bind,
      Option.bind_none]

theorem linked_start : Pushing.start.Linked :=
  ⟨ready_initial.decodable.room, rfl⟩

theorem registered_start : Pushing.start.Registered := ⟨rfl, rfl⟩

/-- A registration links a node under the id it records. -/
theorem register_step (linked : pushing.Linked) (registered : pushing.Registered)
    (taken : pushing.step (.register cmdId paramTypes environment) = some next) :
    next.Registered ∧ next.Linked := by
  simp only [Pushing.step, registered.running, if_true] at taken
  cases allocated : environment.nodeAllocated with
  | false =>
      simp only [processRegister, allocated, Bool.false_eq_true, if_false, Option.some.injEq] at taken
      subst next
      exact ⟨registered, linked⟩
  | true =>
      obtain ⟨copied, processed⟩ := processRegister_allocated cmdId paramTypes linked.room
        linked.live allocated
      simp only [processed, allocated, if_true, Option.some.injEq] at taken
      subst next
      refine ⟨⟨registered.running, registered.none_stray⟩, linked.room, ?_⟩
      rw [List.map_append, List.map_append, ← linked.ids]
      congr 1
      · apply List.map_congr_left
        intro id member
        have older := State.lt_of_cmdIdOf (linked.live id member)
        rw [State.cmdIdOf_append pushing.server _ rfl, if_neg (by omega)]
      · rw [List.map_singleton, State.cmdIdOf_append pushing.server _ rfl, if_pos rfl]
        rfl

/-- A push that passes the test, on parameters that fit a message. -/
theorem push_short (linked : pushing.Linked) (registered : pushing.Registered)
    (held : readMessage pushing.server.memory call.cmdId call.params call.paramTypes = some message)
    (fits : message.encodedSize < 2147483648)
    (filled : ¬ (pushing.recorded = [] ∧ call.callbackNode = .null))
    (taken : pushing.stepPush call = some next) :
    (next.Registered ↔ call.cmdId ∈ pushing.recorded ∨ call.environment.sends = false) ∧
      next.Linked := by
  obtain ⟨memory, replies, status, kept, called, outcome⟩ :=
    respondCall_refused held fits call.environment
  simp only [Pushing.stepPush, held, respondRegister_eq linked, if_neg filled, called, outcome,
    Option.some.injEq] at taken
  subst next
  refine ⟨?_, kept.valid linked.room, linked.ids⟩
  constructor
  · intro good
    have none_ := good.none_stray
    by_contra strays
    rw [not_or, Bool.not_eq_false] at strays
    simp [strays.1, strays.2] at none_
  · intro allowed
    refine ⟨registered.running, ?_⟩
    rcases allowed with recorded | unsent
    · simp [recorded, registered.none_stray]
    · simp [unsent, registered.none_stray]

/-- A push that passes the test, of a frame that is too long. -/
theorem push_long (linked : pushing.Linked) (registered : pushing.Registered)
    (held : readMessage pushing.server.memory call.cmdId call.params call.paramTypes = some message)
    (long : 2147483648 ≤ message.encodedSize)
    (filled : ¬ (pushing.recorded = [] ∧ call.callbackNode = .null))
    (taken : pushing.stepPush call = some next) :
    (next.Registered ↔ call.Encodable message) ∧ next.Linked := by
  obtain ⟨refuses, overflows⟩ := respondCall_long held long
  by_cases encodable : call.Encodable message
  · simp only [Pushing.stepPush, held, respondRegister_eq linked, if_neg filled, refuses encodable,
      Option.some.injEq] at taken
    subst next
    refine ⟨iff_of_true ⟨registered.running, ?_⟩ encodable, linked.room, linked.ids⟩
    simp [Pushing.refused, registered.none_stray]
  · simp only [Pushing.stepPush, held, respondRegister_eq linked, if_neg filled, overflows encodable,
      Option.some.injEq] at taken
    subst next
    refine ⟨iff_of_false (fun good => ?_) encodable, linked.room, linked.ids⟩
    exact absurd good.running Bool.false_ne_true

/-- A push is for a recorded id or refused exactly when it is refusable. -/
theorem push_step (linked : pushing.Linked) (registered : pushing.Registered)
    (taken : pushing.step (.push call) = some next) :
    (next.Registered ↔ pushing.Refusable (.push call)) ∧ next.Linked := by
  simp only [Pushing.step, registered.running, if_true] at taken
  cases held : readMessage pushing.server.memory call.cmdId call.params call.paramTypes with
  | none =>
      simp only [Pushing.stepPush, held] at taken
      contradiction
  | some message =>
      by_cases nothing : pushing.recorded = [] ∧ call.callbackNode = .null
      · simp only [Pushing.stepPush, held, respondRegister_eq linked, if_pos nothing,
          Option.some.injEq] at taken
        subst next
        refine ⟨iff_of_true ⟨registered.running, ?_⟩ (.inl nothing), linked.room, linked.ids⟩
        simp [Pushing.refused, registered.none_stray]
      · simp only [Pushing.Refusable, nothing, false_or, held, Option.some.injEq, exists_eq_left']
        by_cases fits : message.encodedSize < 2147483648
        · have encodable : call.Encodable message := .inl (by omega)
          have short : ¬ 2147483648 ≤ message.encodedSize := by omega
          simp only [encodable, short, or_false, true_and]
          exact push_short linked registered held fits nothing taken
        · have long := Nat.not_lt.mp fits
          simp only [long, or_true, and_true]
          exact push_long linked registered held long nothing taken

/-- Over every run each push is for a recorded id or is refused exactly when every push is
refusable. -/
theorem registered_iff_refusable (events : List PushEvent) :
    Run.Always Pushing.step Pushing.Registered Pushing.start events ↔
      Run.Along Pushing.step Pushing.Refusable Pushing.start events := by
  have stepRule : ∀ pushing event next, Pushing.Linked pushing → pushing.Registered →
      pushing.step event = some next →
      (next.Registered ↔ pushing.Refusable event) ∧ next.Linked := by
    intro pushing event next linked registered taken
    cases event with
    | register cmdId paramTypes environment =>
        have recorded := register_step linked registered taken
        exact ⟨iff_of_true recorded.1 trivial, recorded.2⟩
    | push call => exact push_step linked registered taken
  apply Run.always_iff_along _ _ linked_start registered_start
  · intro pushing event next linked registered taken
    exact (stepRule pushing event next linked registered taken).1
  · intro pushing event next linked registered _ taken
    exact (stepRule pushing event next linked registered taken).2

/-- One client registers for a message, then another message is pushed. -/
private def registerAndPush : List PushEvent :=
  let environment := ⟨true, true, ⟨true, true, true, some 8⟩⟩
  [.register cmdInitUnsolicite 0 environment,
    .push { cmdId := cmdUnsolicite, params, paramTypes := 0, environment, callbackNode := .null }]

theorem push_sends_unregistered :
    ¬ Run.Always Pushing.step Pushing.Registered Pushing.start registerAndPush := by
  intro always
  have outcome : (Run.run Pushing.step Pushing.start registerAndPush).map (fun pushing =>
      (pushing.stray, pushing.server.replies.length)) = some ([cmdUnsolicite], 1) := by
    decide +kernel
  obtain ⟨final, reached, strays⟩ := Option.map_eq_some_iff.mp outcome
  have none_ := (always _ final (List.prefix_refl _) reached).none_stray
  simp only [Prod.mk.injEq] at strays
  rw [none_] at strays
  exact absurd strays.1 (by decide)

end Push

end Dwadelib.Ipc.Server
