import Dwadelib.Ipc.Server.Answer
import Dwadelib.Run

namespace Dwadelib.Ipc.Server

/-! # Which requests are answered from their own bytes

The decoder reads the whole static buffer, so a request that claims more bytes than it
delivers is completed by what an earlier connection left there, and the answer sends it back.
-/

/-- One accepted connection. -/
def step (state : State) (event : Received × Environment) : Option State :=
  if state.running ∧ event.1.content.length ≤ buffMaxNum then
    some (startReceive state event.1 event.2)
  else none

/-- Some sequence of connections leads to the state. -/
def Reachable (state : State) : Prop := ∃ events, Run.run step initial events = some state

/-- What a connection adds to the two traces: the calls of handlers, and the bytes sent back. -/
structure Response where
  dispatched : List Dispatch
  replies : List (List Byte)
deriving DecidableEq, Repr

def respond (state : State) (received : Received) (environment : Environment) : Response where
  dispatched := (startReceive state received environment).dispatched.drop state.dispatched.length
  replies := (startReceive state received environment).replies.drop state.replies.length

/-- After any two histories the same bytes give a handler the same readable parameters and
send the same bytes back. -/
def DependsOnlyOn (received : Received) (environment : Environment) : Prop :=
  ∀ first second, Reachable first → first.running = true → Reachable second →
    second.running = true →
      respond first received environment = respond second received environment ∧
      ∃ message, (respond first received environment).dispatched = [dispatchOf message]

section Isolation

variable {state : State} {content : List Byte} {environment : Environment} {received : Received}
  {message : Message} {rest : List Byte}

/-- The response to a message that is complete in the buffer. -/
def responseTo (message : Message) (environment : Environment) : Response where
  dispatched := [dispatchOf message]
  replies := answersTo message environment

theorem respond_eq (ready : Ready state content) (bounded : received.content.length ≤ buffMaxNum)
    (accepted : messageFormat.decode (overlay received content) = some (message, rest)) :
    respond state received environment = responseTo message environment := by
  obtain ⟨data, holding, _, same⟩ :=
    startReceive_accepts environment ready bounded accepted
  have size := encodedSize_le_of_decode accepted
  rw [overlay_length ready.full bounded] at size
  have fits : message.encodedSize < 2147483648 := by
    simp only [buffMaxNum] at size
    omega
  have calls := startReceive_dispatched environment ready bounded accepted
  have sent : (startReceive state received environment).replies =
      state.replies ++ answersTo message environment := by
    rw [same, call_replies holding fits]
    rfl
  simp only [respond, responseTo, calls, sent, List.drop_left]

theorem ready_of_reachable (reachable : Reachable state) (running : state.running = true) :
    ∃ content, Ready state content := by
  obtain ⟨events, reached⟩ := reachable
  have preserved : ∀ (state : State) event next,
      (state.running = true → ∃ content, Ready state content) → step state event = some next →
        next.running = true → ∃ content, Ready next content := by
    intro state event next holds taken runsOn
    unfold step at taken
    split at taken
    · rename_i enabled
      obtain ⟨content, ready⟩ := holds enabled.1
      cases taken
      exact ⟨_, startReceive_ready ready enabled.2 runsOn⟩
    · contradiction
  exact Run.invariant_of_run preserved (fun _ => ⟨_, ready_initial⟩) reached running

/-- A frame that is complete in the received bytes is answered from them. -/
theorem dependsOnlyOn_of_complete (bounded : received.content.length ≤ buffMaxNum)
    (complete : (messageFormat.decode received.content).isSome) :
    DependsOnlyOn received environment := by
  obtain ⟨⟨message, rest⟩, decoded⟩ := Option.isSome_iff_exists.mp complete
  obtain ⟨valid, split⟩ := messageFormat.decode_sound _ _ _ decoded
  have everywhere : ∀ state, Reachable state → state.running = true →
      respond state received environment = responseTo message environment := by
    intro state reachable running
    obtain ⟨content, ready⟩ := ready_of_reachable reachable running
    have accepted : messageFormat.decode (overlay received content) =
        some (message, rest ++ content.drop received.content.length) := by
      rw [← messageFormat.decode_encode message _ valid, ← List.append_assoc, ← split]
      rfl
    exact respond_eq ready bounded accepted
  intro first second firstReachable firstRunning secondReachable secondRunning
  rw [everywhere first firstReachable firstRunning, everywhere second secondReachable secondRunning]
  exact ⟨rfl, message, rfl⟩

private def working : Environment where
  nodeAllocated := true
  replyAllocated := true
  sending := { socketOpened := true, addressParsed := true, connected := true, sent := some buffMaxNum }

/-- A connection that fills the buffer. -/
private def filling : Received := .bytes (List.replicate buffMaxNum 1)

/-- What the server reads it as: a synchronous command with one value. -/
private def filler : Message where
  cmdId := 0x01010101
  paramTypes := 0x01010101
  payloads := [.value (List.replicate paramSize (.octet 1))]

private theorem filling_content : filling.content = List.replicate buffMaxNum (.octet 1) := by
  simp only [filling, Received.content, List.map_replicate]

private theorem filling_overlay (content : List Byte) (full : content.length = buffMaxNum) :
    overlay filling content = List.replicate buffMaxNum (.octet 1) := by
  rw [overlay, filling_content, List.length_replicate, ← full, List.drop_length, List.append_nil]

private theorem filler_decoded :
    messageFormat.decode (List.replicate buffMaxNum (Byte.octet 1)) =
      some (filler, List.replicate (buffMaxNum - 24) (.octet 1)) := by
  have split : List.replicate buffMaxNum (Byte.octet 1) =
      filler.frame ++ List.replicate (buffMaxNum - 24) (.octet 1) := by
    change _ = List.replicate 24 (Byte.octet 1) ++ _
    rw [← List.replicate_add]
    rfl
  rw [split]
  exact messageFormat.decode_encode _ _
    ⟨_, rfl, trivial, trivial, .cons (valueFormat_valid.mpr List.length_replicate) .nil⟩

/-- There is a history that leaves no zero in the buffer. -/
theorem filled_reachable : ∃ state, Reachable state ∧ state.running = true ∧
    Ready state (List.replicate buffMaxNum (.octet 1)) := by
  have bounded : filling.content.length ≤ buffMaxNum := by
    rw [filling_content, List.length_replicate]
  have content := filling_overlay _ (List.length_replicate (n := buffMaxNum) (a := Byte.octet 0))
  have decoded := filler_decoded
  rw [← content] at decoded
  obtain ⟨data, holding, _, same⟩ :=
    startReceive_accepts working ready_initial bounded decoded
  have running : (startReceive initial filling working).running = true := by
    rw [same, call_running holding (by decide) rfl (by decide) (by decide)]
    rfl
  refine ⟨startReceive initial filling working, ⟨[(filling, working)], ?_⟩, running, ?_⟩
  · have enabled : initial.running = true ∧ filling.content.length ≤ buffMaxNum := ⟨rfl, bounded⟩
    simp only [Run.run, step, if_pos enabled, Option.bind_some]
  · have left := startReceive_ready ready_initial bounded running
    rwa [content] at left

theorem prefix_of_fork {α : Type} {front common first second : List α} {one other : α}
    (different : one ≠ other) (before : front <+: common ++ one :: first)
    (after : front <+: common ++ other :: second) : front <+: common := by
  induction common generalizing front with
  | nil =>
      cases front with
      | nil => exact List.nil_prefix
      | cons head rest =>
          have left := (List.cons_prefix_cons.mp before).1
          have right := (List.cons_prefix_cons.mp after).1
          exact absurd (left.symm.trans right) different
  | cons head common ih =>
      cases front with
      | nil => exact List.nil_prefix
      | cons headFront rest =>
          obtain ⟨same, restBefore⟩ := List.cons_prefix_cons.mp before
          have restAfter := (List.cons_prefix_cons.mp after).2
          exact List.cons_prefix_cons.mpr ⟨same, ih restBefore restAfter⟩

theorem frame_of_respond (ready : Ready state content) (bounded : received.content.length ≤ buffMaxNum)
    (handed : (respond state received environment).dispatched = [dispatchOf message]) :
    messageFormat.Valid message ∧ message.frame <+: overlay received content := by
  obtain ⟨calls, extended⟩ := startReceive_extends environment ready bounded
  have added : calls = [dispatchOf message] := by
    simpa only [respond, extended, List.drop_left] using handed
  rw [added] at extended
  exact frame_of_dispatched ready bounded extended

/-- Two histories tell an incomplete frame apart. -/
theorem complete_of_dependsOnlyOn (bounded : received.content.length ≤ buffMaxNum)
    (depends : DependsOnlyOn received environment) :
    (messageFormat.decode received.content).isSome := by
  obtain ⟨filled, reachable, running, filledReady⟩ := filled_reachable
  obtain ⟨same, message, dispatched⟩ := depends initial filled ⟨[], rfl⟩ rfl reachable running
  obtain ⟨valid, overZeros⟩ := frame_of_respond ready_initial bounded dispatched
  rw [same] at dispatched
  have overOnes := (frame_of_respond filledReady bounded dispatched).2
  simp only [overlay, List.drop_replicate] at overZeros overOnes
  have whole : message.frame <+: received.content := by
    cases missing : buffMaxNum - received.content.length with
    | zero => simpa [missing] using overZeros
    | succ others =>
        rw [missing, List.replicate_succ] at overZeros overOnes
        exact prefix_of_fork (by decide) overZeros overOnes
  obtain ⟨rest, split⟩ := whole
  rw [← split, Message.frame, messageFormat.decode_encode _ _ valid]
  rfl

/-- The answer to a request depends on nothing but the received bytes exactly when they hold
a complete frame. -/
theorem dependsOnlyOn_iff_complete (bounded : received.content.length ≤ buffMaxNum) :
    DependsOnlyOn received environment ↔ (messageFormat.decode received.content).isSome :=
  ⟨complete_of_dependsOnlyOn bounded, dependsOnlyOn_of_complete bounded⟩

theorem dependsOnlyOn_iff_complete_open :
    DependsOnlyOn (.bytes [0, 2, 0, 0, 0, 0, 0, 0]) working ↔
      (messageFormat.decode (Received.bytes [0, 2, 0, 0, 0, 0, 0, 0]).content).isSome :=
  dependsOnlyOn_iff_complete (by decide)

/-- A request with four bytes of input of which none arrives: the answer sends back what the
buffer held. -/
theorem input_taken_from_buffer :
    ¬ DependsOnlyOn (.bytes [0, 1, 0, 0, 5, 0, 0, 0, 4, 0, 0, 0]) working := by
  intro depends
  have complete := complete_of_dependsOnlyOn (by decide) depends
  exact absurd complete (by decide)

end Isolation

end Dwadelib.Ipc.Server
