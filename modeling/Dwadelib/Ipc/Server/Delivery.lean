import Dwadelib.Ipc.Server.Receive
import Dwadelib.Run

namespace Dwadelib.Ipc.Server

/-! # Delivery over a sequence of connections

`start_receive` calls `recv` once for a connection and hands over what the buffer then says.
A message gets through exactly when what this one call did not return already stands in the
buffer; a connection without a byte hands the buffer's last message over again.
-/

/-- A connection that carries a message its sender reported as sent; `octets` are what the
one `recv` returns of the bytes that arrive. -/
structure Carried where
  message : Message
  built : messageFormat.Valid message
  fits : message.encodedSize < 2147483648
  sending : Sending
  reported : (ipcSendData message.frame sending).1 = 0
  octets : List UInt8
  nonempty : octets ≠ []
  bounded : octets.length ≤ buffMaxNum
  arrived : octets.map Byte.octet <+: (ipcSendData message.frame sending).2

inductive Connection where
  | carrying (carried : Carried)
  | closed
  | failed

namespace Connection

def received : Connection → Received
  | carrying carried => .bytes carried.octets
  | closed => .bytes []
  | failed => .failed

def message : Connection → Option Message
  | carrying carried => some carried.message
  | closed => none
  | failed => none

theorem received_bounded (connection : Connection) :
    connection.received.content.length ≤ buffMaxNum := by
  cases connection with
  | carrying carried => simpa [received, Received.content] using carried.bounded
  | closed => simp [received, Received.content]
  | failed => simp [received, Received.content]

end Connection

/-- The server, and the messages sent to it so far. -/
structure Traffic where
  server : State
  sent : List Message

namespace Traffic

def start : Traffic := { server := initial, sent := [] }

/-- One accepted connection; a server that has made an undefined access accepts no more. -/
def step (traffic : Traffic) (event : Connection × Environment) : Option Traffic :=
  if traffic.server.running then
    some {
      server := startReceive traffic.server event.1.received event.2
      sent := traffic.sent ++ event.1.message.toList }
  else none

/-- The handlers got the messages sent, once each, in order and unaltered. -/
def Delivered (traffic : Traffic) : Prop :=
  traffic.server.dispatched = traffic.sent.map dispatchOf

/-- The connection carries a message, and the bytes of it that `recv` does not return already
stand in the buffer where they would have been stored; there are none when it returns all. -/
def Complete (traffic : Traffic) (event : Connection × Environment) : Prop :=
  match event.1 with
  | .carrying carried =>
      traffic.server.memory.read (buff.advance carried.octets.length)
        (carried.message.frame.drop carried.octets.length).length =
          some (carried.message.frame.drop carried.octets.length)
  | .closed => False
  | .failed => False

end Traffic

section Delivery

variable {traffic next : Traffic} {connection : Connection} {environment : Environment}
  {content : List Byte} {carried : Carried}

theorem Carried.octets_eq (carried : Carried) :
    carried.octets.map Byte.octet = carried.message.frame.take carried.octets.length := by
  have whole := carried.arrived.trans (ipcSendData_wire rfl)
  have front := List.prefix_iff_eq_take.mp whole
  rwa [List.length_map] at front

theorem Traffic.step_eq_some {event : Connection × Environment} :
    traffic.step event = some next ↔ traffic.server.running = true ∧
      next = {
        server := startReceive traffic.server event.1.received event.2
        sent := traffic.sent ++ event.1.message.toList } := by
  unfold Traffic.step
  split
  · rename_i running
    rw [Option.some.injEq]
    exact ⟨fun same => ⟨running, same.symm⟩, fun both => both.2.symm⟩
  · rename_i stopped
    exact ⟨fun found => by contradiction, fun both => absurd both.1 stopped⟩

/-- The condition in terms of the buffer: it goes on with the frame. -/
theorem complete_iff (ready : Ready traffic.server content) :
    traffic.Complete (.carrying carried, environment) ↔
      carried.message.frame <+: overlay (.bytes carried.octets) content := by
  have object := ready.decodable.object
  have split : carried.message.frame =
      carried.octets.map Byte.octet ++ carried.message.frame.drop carried.octets.length := by
    rw [carried.octets_eq, List.take_append_drop]
  unfold Traffic.Complete
  simp only
  rw [object.read_iff]
  constructor
  · intro later
    rw [split]
    simp only [overlay, Received.content, List.length_map]
    exact (List.prefix_append_right_inj _).mpr later
  · intro whole
    rw [split] at whole
    simp only [overlay, Received.content, List.length_map] at whole
    exact (List.prefix_append_right_inj _).mp whole

/-- A handler gets the message exactly when the buffer begins with its frame. -/
theorem dispatched_iff (environment : Environment) (ready : Ready traffic.server content) :
    (startReceive traffic.server (.bytes carried.octets) environment).dispatched =
        traffic.server.dispatched ++ [dispatchOf carried.message] ↔
      carried.message.frame <+: overlay (.bytes carried.octets) content := by
  have bounded := (Connection.carrying carried).received_bounded
  constructor
  · intro dispatched
    exact (frame_of_dispatched ready bounded dispatched).2
  · intro whole
    obtain ⟨rest, split⟩ := whole
    have decoded : messageFormat.decode (overlay (.bytes carried.octets) content) =
        some (carried.message, rest) := by
      rw [← split]
      exact messageFormat.decode_encode carried.message rest carried.built
    exact startReceive_dispatched environment ready bounded decoded

/-- While messages get through, the buffer begins with a readable one. -/
def Traffic.Stale (traffic : Traffic) : Prop :=
  traffic.server.running = true → ∃ content message rest, Ready traffic.server content ∧
    messageFormat.decode content = some (message, rest)

theorem stale_start : Traffic.start.Stale := by
  intro _
  refine ⟨_, { cmdId := 0, paramTypes := 0, payloads := [] }, List.replicate (buffMaxNum - 8) (.octet 0),
    ready_initial, ?_⟩
  have split : List.replicate buffMaxNum (Byte.octet 0) =
      Message.frame { cmdId := 0, paramTypes := 0, payloads := [] } ++
        List.replicate (buffMaxNum - 8) (.octet 0) := by
    change _ = List.replicate 8 (Byte.octet 0) ++ _
    rw [← List.replicate_add]
    rfl
  rw [split]
  exact messageFormat.decode_encode _ _ ⟨_, rfl, trivial, trivial, .nil⟩

/-- The step rule: from a state where all was delivered, all is delivered after one more
connection exactly when it is complete. -/
theorem delivered_step (stale : traffic.Stale) (delivered : traffic.Delivered)
    (taken : traffic.step (connection, environment) = some next) :
    next.Delivered ↔ traffic.Complete (connection, environment) := by
  obtain ⟨running, rfl⟩ := Traffic.step_eq_some.mp taken
  obtain ⟨content, message, rest, ready, decoded⟩ := stale running
  have again : ∀ received : Received, received.content = [] →
      (startReceive traffic.server received environment).dispatched =
        traffic.server.dispatched ++ [dispatchOf message] := by
    intro received empty
    have same : overlay received content = content := by
      rw [overlay, empty]
      rfl
    exact startReceive_dispatched environment ready (by rw [empty]; simp) (by rw [same]; exact decoded)
  have repeated : ∀ received : Received, received.content = [] →
      (startReceive traffic.server received environment).dispatched ≠
        traffic.sent.map dispatchOf := by
    intro received empty same
    rw [again received empty, delivered] at same
    have lengths := congrArg List.length same
    simp at lengths
  cases connection with
  | carrying carried =>
      rw [complete_iff ready, ← dispatched_iff environment ready, delivered]
      simp only [Traffic.Delivered, Connection.received, Connection.message, Option.toList_some,
        List.map_append, List.map_cons, List.map_nil]
  | closed =>
      simp only [Traffic.Complete, iff_false]
      simpa [Traffic.Delivered, Connection.message, Connection.received] using repeated (.bytes []) rfl
  | failed =>
      simp only [Traffic.Complete, iff_false]
      simpa [Traffic.Delivered, Connection.message, Connection.received] using repeated .failed rfl

theorem stale_step (stale : traffic.Stale)
    (complete : traffic.Complete (connection, environment))
    (taken : traffic.step (connection, environment) = some next) : next.Stale := by
  obtain ⟨running, rfl⟩ := Traffic.step_eq_some.mp taken
  obtain ⟨content, _, _, ready, _⟩ := stale running
  intro runsOn
  cases connection with
  | carrying carried =>
      obtain ⟨rest, split⟩ := (complete_iff ready).mp complete
      refine ⟨_, carried.message, rest, startReceive_ready ready
        (Connection.carrying carried).received_bounded runsOn, ?_⟩
      change messageFormat.decode (overlay (.bytes carried.octets) content) = _
      rw [← split]
      exact messageFormat.decode_encode carried.message rest carried.built
  | closed => exact absurd complete id
  | failed => exact absurd complete id

/-- Over any sequence of connections, every message is handed over once, unaltered and in
order, and nothing else is, exactly when every connection is complete. -/
theorem delivered_iff_complete (connections : List (Connection × Environment)) :
    Run.Always Traffic.step Traffic.Delivered Traffic.start connections ↔
      Run.Along Traffic.step Traffic.Complete Traffic.start connections := by
  refine Run.always_iff_along (fun state event next stale delivered taken => ?_)
    (fun state event next stale _ complete taken => ?_) stale_start rfl
  · exact delivered_step stale delivered taken
  · exact stale_step stale complete taken

/-- An open request without parameters, received whole. -/
private def openRequest : Carried where
  message := { cmdId := cmdRequestOpen, paramTypes := 0, payloads := [] }
  built := ⟨_, rfl, trivial, trivial, .nil⟩
  fits := by decide
  sending := { socketOpened := true, addressParsed := true, connected := true, sent := some 8 }
  reported := rfl
  octets := [0, 2, 0, 0, 0, 0, 0, 0]
  nonempty := by decide
  bounded := by decide
  arrived := by decide

private def workingEnvironment : Environment where
  nodeAllocated := true
  replyAllocated := true
  sending := { socketOpened := true, addressParsed := true, connected := true, sent := some 8 }

/-- A peer that connects after an open request and closes without a byte: the request is
dispatched a second time. -/
theorem request_dispatched_again :
    ¬ Run.Always Traffic.step Traffic.Delivered Traffic.start
      [(.carrying openRequest, workingEnvironment), (.closed, workingEnvironment)] := by
  intro always
  obtain ⟨first, taken⟩ : ∃ first,
      Traffic.start.step (.carrying openRequest, workingEnvironment) = some first := ⟨_, rfl⟩
  have delivered := ((Run.always_cons taken).mp always).2
  have complete : Traffic.start.Complete (.carrying openRequest, workingEnvironment) := rfl
  have running : first.server.running = true := by
    cases taken
    rfl
  obtain ⟨second, closed⟩ : ∃ second, first.step (.closed, workingEnvironment) = some second :=
    ⟨_, Traffic.step_eq_some.mpr ⟨running, rfl⟩⟩
  have later := ((Run.always_cons closed).mp delivered).2
  have again := (delivered_step (stale_step stale_start complete taken)
    (delivered [] first List.nil_prefix rfl) closed).mp (later [] second List.nil_prefix rfl)
  exact again

end Delivery

end Dwadelib.Ipc.Server
