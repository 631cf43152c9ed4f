import Dwadelib.Ipc.Client.Step
import Dwadelib.Ipc.Server.Answer

namespace Dwadelib.Ipc

open Client (Call Delivery Moves)

/-! # Client and server together

The threads of the client, the requests on their way to the server, the asynchronous ones it
has recorded, and the replies on their way back. Every message has a connection of its own, so
each of the three is served in any order. A message lost on the way is one that is never served.
-/

/-- `linkLog` and `searchLog` record the requests in the order in which their nodes were
linked, and the replies in the order in which they were searched for. -/
structure System where
  client : Client.State
  requests : List Nat
  pending : List Nat
  replies : List Delivery
  linkLog : List Nat
  searchLog : List Delivery
deriving DecidableEq, Repr

namespace System

inductive Event where
  | client (event : Client.Event)
  | serve (id : Nat)
  | record (id : Nat)
  | answer (id : Nat)
  | deliver (delivery : Delivery)
  | push (delivery : Delivery)
deriving DecidableEq, Repr

def start (isNull : Bool) : System where
  client := Client.initial isNull
  requests := []
  pending := []
  replies := []
  linkLog := []
  searchLog := []

/-- The request went to `process_command_call`, not to `process_register`. -/
def isCommand (system : System) (id : Nat) : Bool :=
  (system.client.calls[id]?).any fun call => Server.handlerOf call.cmdId = .processCommandCall

def isRequest (system : System) (id : Nat) : Bool :=
  (system.client.calls[id]?).any fun call => call.kind = .request

def isSynchronous (system : System) (id : Nat) : Bool :=
  (system.client.calls[id]?).any fun call => call.callback.isNone

/-- The id of a request, freed or not. -/
def cmdIdOf (system : System) (id : Nat) : Option UInt32 := system.client.calls[id]?.map Call.cmdId

/-- The reply the server produces for a request. -/
def replyTo (system : System) (id : Nat) : Delivery where
  cmdId := (system.cmdIdOf id).getD 0 ||| cmdRespond
  origin := id

/-- What a step of the client adds to the network and to the logs. -/
def note (system : System) (event : Client.Event) (client : Client.State) : System :=
  match event with
  | .send id =>
      if system.isRequest id then { system with client, requests := system.requests ++ [id] }
      else { system with client }
  | .link id =>
      if !client.undefined && system.isRequest id then
        { system with client, linkLog := system.linkLog ++ [id] }
      else { system with client }
  | .search =>
      match system.client.receiver with
      | .received delivery =>
          if !client.undefined && delivery.isRespond then
            { system with client, searchLog := system.searchLog ++ [delivery] }
          else { system with client }
      | _ => { system with client }
  | _ => { system with client }

/-- One step. `serve` is `process_sync_command`, `record` is `process_async_command`, which
also a request without a callback reaches if its type word has the `CALLBABK` bit; `answer` is
`ipc_server_respond_async_call`. A push is whatever else the server sends. -/
def step (system : System) (event : Event) : Option System :=
  match event with
  | .client (.receive _) => none
  | .client event => (Client.step system.client event).map (system.note event)
  | .serve id =>
      if id ∈ system.requests ∧ system.isCommand id ∧ system.isSynchronous id then
        some { system with
          requests := system.requests.erase id
          replies := system.replies ++ [system.replyTo id] }
      else none
  | .record id =>
      if id ∈ system.requests ∧ system.isCommand id then
        some { system with requests := system.requests.erase id, pending := system.pending ++ [id] }
      else none
  | .answer id =>
      if id ∈ system.pending then
        some { system with
          pending := system.pending.erase id
          replies := system.replies ++ [system.replyTo id] }
      else none
  | .deliver delivery =>
      if delivery ∈ system.replies then
        (Client.step system.client (.receive delivery)).map fun client =>
          { system with client, replies := system.replies.erase delivery }
      else none
  | .push delivery =>
      if !delivery.isRespond && delivery.isUnsolicited then
        (Client.step system.client (.receive delivery)).map fun client => { system with client }
      else none

/-- What a step can change, as far as the client and the logs go. -/
inductive Changes (system : System) : Event → System → Prop
  | client {event : Client.Event} {client : Client.State} (moves : Moves system.client event client)
      (defined : system.client.undefined = false) (own : ∀ delivery, event ≠ .receive delivery) :
      Changes system (.client event) (system.note event client)
  | receive {event : Event} {next : System} (delivery : Delivery)
      (network : ∀ event_, event ≠ .client event_)
      (idle : system.client.receiver = .idle)
      (client : next.client = { system.client with receiver := .received delivery })
      (links : next.linkLog = system.linkLog) (searches : next.searchLog = system.searchLog) :
      Changes system event next
  | server {event : Event} {next : System} (network : ∀ event_, event ≠ .client event_)
      (client : next.client = system.client)
      (links : next.linkLog = system.linkLog) (searches : next.searchLog = system.searchLog) :
      Changes system event next

section Changes

variable {system next : System} {event : Event} {delivery : Delivery} {id : Nat}

theorem changes_of_step (taken : system.step event = some next) : Changes system event next := by
  unfold step at taken
  split at taken
  · contradiction
  · rename_i event own
    obtain ⟨client, moved, rfl⟩ := Option.map_eq_some_iff.mp taken
    exact .client (Client.moves_of_step moved) (Client.defined_of_step moved)
      fun delivery same => own delivery (by rw [same])
  · split at taken
    · cases taken
      exact .server (fun _ => by simp) rfl rfl rfl
    · contradiction
  · split at taken
    · cases taken
      exact .server (fun _ => by simp) rfl rfl rfl
    · contradiction
  · split at taken
    · cases taken
      exact .server (fun _ => by simp) rfl rfl rfl
    · contradiction
  · split at taken
    · obtain ⟨client, moved, rfl⟩ := Option.map_eq_some_iff.mp taken
      obtain ⟨idle, received⟩ := Client.receive_of_step moved
      exact .receive _ (fun _ => by simp) idle received rfl rfl
    · contradiction
  · split at taken
    · obtain ⟨client, moved, rfl⟩ := Option.map_eq_some_iff.mp taken
      obtain ⟨idle, received⟩ := Client.receive_of_step moved
      exact .receive _ (fun _ => by simp) idle received rfl rfl
    · contradiction

/-- A step of the client's own threads. -/
theorem client_of_step {act : Client.Event} (taken : system.step (.client act) = some next) :
    (∀ delivery, act ≠ .receive delivery) ∧
      ∃ client, Client.step system.client act = some client ∧ next = system.note act client := by
  unfold step at taken
  split at taken
  · contradiction
  · rename_i event own same
    cases same
    obtain ⟨client, moved, rfl⟩ := Option.map_eq_some_iff.mp taken
    exact ⟨fun delivery same => own delivery (by rw [same]), client, moved, rfl⟩
  all_goals contradiction

@[simp] theorem note_client (system : System) (event : Client.Event) (client : Client.State) :
    (system.note event client).client = client := by
  unfold note
  repeat' split
  all_goals rfl

theorem note_searchLog {step : Client.Event} (client : Client.State) (other : step ≠ .search) :
    (system.note step client).searchLog = system.searchLog := by
  unfold note
  split
  · split <;> rfl
  · split <;> rfl
  · contradiction
  · rfl

theorem note_linkLog {step : Client.Event} (client : Client.State) (other : ∀ id, step ≠ .link id) :
    (system.note step client).linkLog = system.linkLog := by
  unfold note
  split
  · split <;> rfl
  · rename_i id
    exact absurd rfl (other id)
  · split
    · split <;> rfl
    · rfl
  · rfl

theorem note_search (client : Client.State)
    (received : system.client.receiver = .received delivery)
    (defined : client.undefined = false) :
    (system.note .search client).searchLog =
      if delivery.isRespond then system.searchLog ++ [delivery] else system.searchLog := by
  simp only [note, received, defined, Bool.not_false, Bool.true_and]
  split <;> rfl

/-- A step that makes an undefined access is not logged. -/
theorem note_fault (system : System) (step : Client.Event) :
    (system.note step system.client.fault).linkLog = system.linkLog ∧
      (system.note step system.client.fault).searchLog = system.searchLog := by
  cases step with
  | send id =>
      simp only [note]
      split <;> exact ⟨rfl, rfl⟩
  | search =>
      unfold note
      cases system.client.receiver <;> exact ⟨rfl, rfl⟩
  | _ => exact ⟨rfl, rfl⟩

end Changes

end System

end Dwadelib.Ipc
