import Dwadelib.Ipc.CallbackList
import Dwadelib.Run

namespace Dwadelib.Ipc.Client

/-! # The client

The threads of `ipc_client.c`: any number of callers in `ipc_client_request` and
`ipc_client_register_callback`, and the receiver in `start_receive`. An event is one step of
one of them; what a thread does while it holds a mutex is one step. The control flow is
modelled here, the copies between parameter arrays in `Client/Output`.
-/

/-- A message that `start_receive` has decoded, and the request it was sent for. -/
structure Delivery where
  cmdId : UInt32
  origin : Nat
deriving DecidableEq, Repr

/-- The test for a reply. -/
def Delivery.isRespond (delivery : Delivery) : Bool := delivery.cmdId &&& cmdRespond > 0

/-- The test for a pushed message; `start_receive` makes it after the other one. -/
def Delivery.isUnsolicited (delivery : Delivery) : Bool := delivery.cmdId &&& cmdUnsoliciteMask > 0

/-- The id `start_receive` looks for. -/
def Delivery.searched (delivery : Delivery) : UInt32 :=
  if delivery.isRespond then delivery.cmdId &&& cmdRespondMask else delivery.cmdId

/-- How far a call has come. -/
inductive Phase where
  | started
  | sent
  | linked
  | waiting
  | woken
  | returned (status : Int)
deriving DecidableEq, Repr

inductive Kind where
  | request
  | register
deriving DecidableEq, Repr

/-- One call of `ipc_client_request` or `ipc_client_register_callback`, with the node it
allocates; a synchronous request is one whose callback is `NULL`. -/
structure Call where
  kind : Kind
  cmdId : UInt32
  callback : Option Nat
  phase : Phase
  live : Bool
deriving DecidableEq, Repr

inductive Receiver where
  | idle
  | received (delivery : Delivery)
  | searched (delivery : Delivery)
deriving DecidableEq, Repr

/-- A message passed to the node of a call: copied for its caller, or given to its callback. -/
structure Handed where
  id : Nat
  delivery : Delivery
deriving DecidableEq, Repr

structure State where
  calls : List Call
  responseCallbackList : List Nat
  registerCallbackList : List Nat
  receiver : Receiver
  callbackNode : NodePointer
  handed : List Handed
  undefined : Bool
deriving DecidableEq, Repr

/-- The state after `ipc_client_init`. The receiver's variable is not initialised: it may be
`NULL` by chance, and is no pointer to a node otherwise. -/
def initial (isNull : Bool) : State where
  calls := []
  responseCallbackList := []
  registerCallbackList := []
  receiver := .idle
  callbackNode := if isNull then .null else .wild
  handed := []
  undefined := false

inductive Event where
  | begin (kind : Kind) (cmdId : UInt32) (callback : Option Nat)
  | fail (id : Nat)
  | send (id : Nat)
  | link (id : Nat)
  | wait (id : Nat)
  | spurious (id : Nat)
  | timeout (id : Nat)
  | finish (id : Nat)
  | receive (delivery : Delivery)
  | search
  | dispatch
deriving DecidableEq, Repr

namespace State

/-- The id of a node that is not freed. -/
def cmdIdOf (state : State) (id : Nat) : Option UInt32 :=
  state.calls[id]?.bind fun call => if call.live then some call.cmdId else none

/-- The call at this point of its code, if it is there. -/
def at_ (state : State) (id : Nat) (phase : Phase) (act : Call → State) : Option State :=
  match state.calls[id]? with
  | some call => if call.phase = phase then some (act call) else none
  | none => none

def setCall (state : State) (id : Nat) (call : Call) : State :=
  { state with calls := state.calls.set id call }

/-- An undefined access; nothing is said about what follows. -/
def fault (state : State) : State := { state with undefined := true }

/-- The list a message is searched in. -/
def listFor (state : State) (delivery : Delivery) : List Nat :=
  if delivery.isRespond then state.responseCallbackList else state.registerCallbackList

/-- `list_add_tail` under the mutex of the list. A registration and an asynchronous request
return after it. -/
def link (state : State) (id : Nat) (call : Call) : State :=
  match call.kind with
  | .request =>
      match listAddTail state.cmdIdOf state.responseCallbackList id with
      | none => state.fault
      | some responseCallbackList =>
          let phase := if call.callback.isSome then .returned 0 else .linked
          { state.setCall id { call with phase } with responseCallbackList }
  | .register =>
      match listAddTail state.cmdIdOf state.registerCallbackList id with
      | none => state.fault
      | some registerCallbackList =>
          { state.setCall id { call with phase := .returned 0 } with registerCallbackList }

/-- The caller locks the mutex of its node and waits on its condition. -/
def wait (state : State) (id : Nat) (call : Call) : State :=
  if call.live then state.setCall id { call with phase := .waiting } else state.fault

/-- The timeout of `pthread_cond_timedwait`: the node is freed where it is. -/
def timeout (state : State) (id : Nat) (call : Call) : State :=
  if call.live then state.setCall id { call with phase := .returned 1, live := false }
  else state.fault

/-- The caller reads its node after `pthread_cond_timedwait` and returns 0. -/
def finish (state : State) (id : Nat) (call : Call) : State :=
  if call.live then state.setCall id { call with phase := .returned 0 } else state.fault

/-- The search loop for a message, under the mutex of its list; a reply unlinks what it finds. -/
def search (state : State) (delivery : Delivery) : State :=
  match searchList state.cmdIdOf delivery.searched (state.listFor delivery) state.callbackNode with
  | some (.node id, true) =>
      if delivery.isRespond then
        match listDelete state.cmdIdOf state.responseCallbackList id with
        | some responseCallbackList =>
            { state with responseCallbackList, receiver := .searched delivery, callbackNode := .node id }
        | none => state.fault
      else
        { state with receiver := .searched delivery, callbackNode := .node id }
  | some (callbackNode, _) => { state with receiver := .searched delivery, callbackNode }
  | none => state.fault

/-- `process_sync_call`: the reply is copied into the node, then the node's condition is
signalled, which wakes the caller if it waits on it. -/
def processSyncCall (state : State) (id : Nat) (call : Call) (delivery : Delivery) : State :=
  let phase := if call.phase = .waiting then .woken else call.phase
  { state.setCall id { call with phase } with
    handed := state.handed ++ [{ id, delivery }]
    receiver := .idle }

/-- `process_async_call`: the callback if there is one, then `free`. -/
def processAsyncCall (state : State) (id : Nat) (call : Call) (delivery : Delivery) : State :=
  { state.setCall id { call with live := false } with
    handed := if call.callback.isSome then state.handed ++ [{ id, delivery }] else state.handed
    receiver := .idle }

/-- What follows the search: the variable is used unless it is `NULL`. -/
def dispatch (state : State) (delivery : Delivery) : State :=
  match state.callbackNode with
  | .null => { state with receiver := .idle }
  | .wild => state.fault
  | .node id =>
      match state.calls[id]? with
      | none => state.fault
      | some call =>
          if call.live then
            if delivery.isRespond && call.callback.isNone then
              state.processSyncCall id call delivery
            else
              state.processAsyncCall id call delivery
          else state.fault

/-- `ipc_client_unregister_callback`, whose body is empty. -/
def ipcClientUnregisterCallback (state : State) (_cmdId : UInt32) : State := state

end State

/-- One step; `none` where the event is not the next one of its thread. -/
def step (state : State) (event : Event) : Option State :=
  if state.undefined then none
  else
    match event with
    | .begin kind cmdId callback => some { state with
        calls := state.calls ++ [{ kind, cmdId, callback, phase := .started, live := true }] }
    | .fail id => state.at_ id .started fun call =>
        state.setCall id { call with phase := .returned 1, live := false }
    | .send id => state.at_ id .started fun call => state.setCall id { call with phase := .sent }
    | .link id => state.at_ id .sent fun call => state.link id call
    | .wait id => state.at_ id .linked fun call => state.wait id call
    | .spurious id => state.at_ id .waiting fun call => state.setCall id { call with phase := .woken }
    | .timeout id => state.at_ id .waiting fun call => state.timeout id call
    | .finish id => state.at_ id .woken fun call => state.finish id call
    | .receive delivery =>
        if state.receiver = .idle then some { state with receiver := .received delivery } else none
    | .search =>
        match state.receiver with
        | .received delivery =>
            if delivery.isRespond || delivery.isUnsolicited then some (state.search delivery)
            else some { state with receiver := .idle }
        | _ => none
    | .dispatch =>
        match state.receiver with
        | .searched delivery => some (state.dispatch delivery)
        | _ => none

end Dwadelib.Ipc.Client
