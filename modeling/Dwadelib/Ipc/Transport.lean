import Dwadelib.Memory

namespace Dwadelib.Ipc

/-! # One connection

A message travels on a connection of its own, which the sender closes at once. How the
calls on the sockets turn out is given: they may fail, `send` may take only the first bytes,
and `recv` returns some of what has arrived.
-/

/-- How the calls of `ipc_send_data` turn out; `sent` is `none` where `send` gives -1. -/
structure Sending where
  socketOpened : Bool
  addressParsed : Bool
  connected : Bool
  sent : Option Nat
deriving DecidableEq, Repr

/-- `ipc_send_data(buff, size)` on the bytes in `buff`: what it returns, and what it puts on
the wire. -/
def ipcSendData (bytes : List Byte) (sending : Sending) : Int × List Byte :=
  if !sending.socketOpened then (1, [])
  else if !sending.addressParsed then (1, [])
  else if !sending.connected then (1, [])
  else
    match sending.sent with
    | none => (1, [])
    | some count => (0, bytes.take count)

theorem ipcSendData_wire {bytes wire : List Byte} {sending : Sending} {status : Int}
    (sent : ipcSendData bytes sending = (status, wire)) : wire <+: bytes := by
  unfold ipcSendData at sent
  split at sent
  · cases sent
    exact List.nil_prefix
  · split at sent
    · cases sent
      exact List.nil_prefix
    · split at sent
      · cases sent
        exact List.nil_prefix
      · split at sent
        · cases sent
          exact List.nil_prefix
        · cases sent
          exact List.take_prefix _ _

/-- What one `recv` gives: -1, or as many bytes as it returns. -/
inductive Received where
  | failed
  | bytes (octets : List UInt8)
deriving DecidableEq, Repr

namespace Received

def result : Received → Int
  | failed => -1
  | bytes octets => octets.length

def content : Received → List Byte
  | failed => []
  | bytes octets => octets.map .octet

end Received

/-- `n = recv(connfd, buff, BUFF_MAX_NUM, 0)`: the bytes overwrite the front of the buffer. -/
def recv (memory : Memory) (buff : Pointer) (received : Received) : Option (Memory × Int) := do
  let memory ← memory.write buff received.content
  return (memory, received.result)

theorem recv_object {memory : Memory} {buff : Pointer} {content : List Byte} (received : Received)
    (object : memory.Object buff content) (bounded : received.content.length ≤ content.length) :
    ∃ after, recv memory buff received = some (after, received.result) ∧
      memory.write buff received.content = some after ∧
      after.Object buff (received.content ++ content.drop received.content.length) := by
  have whole := Memory.Valid.of_read object.read_all
  have room : memory.Valid buff received.content.length := by
    simpa using whole.sub (show 0 + received.content.length ≤ content.length by omega)
  obtain ⟨after, stored⟩ := Memory.write_exists room
  exact ⟨after, by simp only [recv, stored, bind, pure, Option.bind_some], stored,
    object.overwrite stored⟩

end Dwadelib.Ipc
