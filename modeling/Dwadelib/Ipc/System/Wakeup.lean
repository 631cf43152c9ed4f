import Dwadelib.Ipc.Client.Access
import Dwadelib.Ipc.System

namespace Dwadelib.Ipc.System

open Client (Call Delivery Moves Advance Retire)

/-! # Waking the caller of a synchronous request

The request is sent before its node is linked and before its caller waits, and the condition
variable has no predicate: a signal sent too early is gone.
-/

/-- A synchronous request that has been sent and has neither woken up nor returned. -/
structure Awaits (call : Call) : Prop where
  request : call.kind = .request
  synchronous : call.callback = none
  phase : call.phase = .sent ∨ call.phase = .linked ∨ call.phase = .waiting

/-- The receiver has found the node for the reply and is about to signal it. -/
def Carried (system : System) (id : Nat) : Prop :=
  ∃ delivery, system.client.receiver = .searched delivery ∧ delivery.isRespond = true ∧
    delivery.origin = id ∧ system.client.callbackNode = .node id

/-- The reply is consumed, and nothing is left that wakes the caller with it. -/
structure Lost (system : System) (id : Nat) : Prop where
  waits : ∃ call, system.client.calls[id]? = some call ∧ Awaits call
  consumed : ∃ delivery ∈ system.searchLog, delivery.origin = id
  gone : ¬ Carried system id

def NoneLost (system : System) : Prop := ∀ id, ¬ Lost system id

/-- No reply is lost, and no freed node has been touched, after which nothing is certain. -/
structure NoLostReply (system : System) : Prop where
  defined : system.client.undefined = false
  kept : NoneLost system

/-- A search for the reply to a waiting request ends at its own node, and what is signalled
for it already waits. -/
def Heard (system : System) : Client.Event → Prop
  | .search => ∀ delivery call, system.client.receiver = .received delivery →
      delivery.isRespond = true → system.client.calls[delivery.origin]? = some call → Awaits call →
      Client.EndsAt system.client delivery (.node delivery.origin)
  | .dispatch => ∀ delivery call, system.client.receiver = .searched delivery →
      delivery.isRespond = true → system.client.callbackNode = .node delivery.origin →
      system.client.calls[delivery.origin]? = some call → call.phase ≠ .linked
  | _ => True

/-- The client touches no freed node, and replies are heard. -/
def InTime (system : System) : Event → Prop
  | .client act => Client.OnLive system.client act ∧ Heard system act
  | _ => True

/-- The request has left the client. -/
def Sent (client : Client.State) (id : Nat) : Prop :=
  ∃ call, client.calls[id]? = some call ∧ call.phase ≠ .started

/-- The requests that a message in the system or in the logs belongs to. -/
def Mentions (system : System) (id : Nat) : Prop :=
  id ∈ system.requests ∨ id ∈ system.pending ∨ (∃ reply ∈ system.replies, reply.origin = id) ∨
    (∃ delivery ∈ system.searchLog, delivery.origin = id) ∨
    ∃ delivery, system.client.receiver = .received delivery ∧ delivery.isRespond = true ∧
      delivery.origin = id

structure Sound (system : System) : Prop where
  client : Client.Sound system.client
  sent : ∀ id, Mentions system id → Sent system.client id
  searched : ∀ delivery, system.client.receiver = .searched delivery → delivery.isRespond = true →
    delivery ∈ system.searchLog

section Wakeup

variable {system next : System} {event : Event} {act : Client.Event} {client : Client.State}
  {id other : Nat} {call : Call} {delivery : Delivery}

theorem sent_of_moves (moves : Moves system.client act client) (sent : Sent system.client id) :
    Sent client id := by
  obtain ⟨call, known, begun⟩ := sent
  obtain ⟨after, found, later⟩ := moves.calls.keeps known
  exact ⟨after, found, later.begun begun⟩

theorem mentions_frame (mentioned : Mentions next id) (requests : next.requests = system.requests)
    (pending : next.pending = system.pending) (replies : next.replies = system.replies)
    (searchLog : next.searchLog = system.searchLog)
    (received : ∀ delivery, next.client.receiver = .received delivery →
      system.client.receiver = .received delivery) : Mentions system id := by
  unfold Mentions at mentioned ⊢
  rw [requests, pending, replies, searchLog] at mentioned
  rcases mentioned with inside | inside | inside | inside | inside
  · exact .inl inside
  · exact .inr (.inl inside)
  · exact .inr (.inr (.inl inside))
  · exact .inr (.inr (.inr (.inl inside)))
  · obtain ⟨delivery, carries, rest⟩ := inside
    exact .inr (.inr (.inr (.inr ⟨delivery, received delivery carries, rest⟩)))

theorem mentions_send (known : system.client.calls[id]? = some call)
    (mentioned : Mentions (system.note (.send id) (system.client.setCall id { call with phase := .sent }))
      other) : Mentions system other ∨ Sent (system.client.setCall id { call with phase := .sent }) other := by
  have own : Sent (system.client.setCall id { call with phase := .sent }) id :=
    ⟨_, (Client.getElem?_setCall known _).trans (if_pos rfl), by simp⟩
  simp only [note] at mentioned
  split at mentioned
  · rcases mentioned with inside | inside
    · rcases List.mem_append.mp inside with old | new
      · exact .inl (.inl old)
      · cases List.mem_singleton.mp new
        exact .inr own
    · exact .inl (.inr inside)
  · exact .inl (mentions_frame mentioned rfl rfl rfl rfl fun _ received => received)

theorem mentions_search (received : system.client.receiver = .received delivery)
    (elsewhere : ∀ message, client.receiver = .received message →
      system.client.receiver = .received message)
    (mentioned : Mentions (system.note .search client) id) : Mentions system id := by
  simp only [note, received] at mentioned
  split at mentioned
  · rename_i respond
    rcases mentioned with inside | inside | inside | inside | inside
    · exact .inl inside
    · exact .inr (.inl inside)
    · exact .inr (.inr (.inl inside))
    · obtain ⟨message, member, rfl⟩ := inside
      rcases List.mem_append.mp member with old | new
      · exact .inr (.inr (.inr (.inl ⟨message, old, rfl⟩)))
      · cases List.mem_singleton.mp new
        have answers := (Bool.and_eq_true_iff.mp respond).2
        exact .inr (.inr (.inr (.inr ⟨delivery, received, answers, rfl⟩)))
    · obtain ⟨message, carries, rest⟩ := inside
      exact .inr (.inr (.inr (.inr ⟨message, elsewhere message carries, rest⟩)))
  · exact mentions_frame mentioned rfl rfl rfl rfl elsewhere

/-- A step of the client mentions a new request only by sending it. -/
theorem mentions_note (moves : Moves system.client act client)
    (own : ∀ delivery, act ≠ .receive delivery) (mentioned : Mentions (system.note act client) id) :
    Mentions system id ∨ Sent client id := by
  have frame : (∀ message, client.receiver = .received message →
      system.client.receiver = .received message) →
      system.note act client = { system with client } → Mentions system id ∨ Sent client id := by
    intro received same
    rw [same] at mentioned
    exact .inl (mentions_frame mentioned rfl rfl rfl rfl received)
  cases moves with
  | begin kind cmdId callback => exact frame (fun _ received => received) rfl
  | advance known advances =>
      cases advances with
      | send here => exact mentions_send known mentioned
      | wait here live => exact frame (fun _ received => received) rfl
      | spurious here => exact frame (fun _ received => received) rfl
      | finish here live => exact frame (fun _ received => received) rfl
  | retire known retires =>
      cases retires with
      | fail here => exact frame (fun _ received => received) rfl
      | timeout here live => exact frame (fun _ received => received) rfl
  | link known here =>
      simp only [note] at mentioned
      split at mentioned <;>
        exact .inl (mentions_frame mentioned rfl rfl rfl rfl fun _ received => received)
  | receive delivery idle => exact absurd rfl (own delivery)
  | ignore received neither =>
      exact .inl (mentions_search received (fun _ idle => by contradiction) mentioned)
  | hit received either hits =>
      exact .inl (mentions_search received (fun _ searched => by contradiction) mentioned)
  | miss received either live missed =>
      exact .inl (mentions_search received (fun _ searched => by contradiction) mentioned)
  | skip searched null => exact frame (fun _ idle => by contradiction) rfl
  | pass searched pointed known live =>
      refine frame (fun _ received => ?_) rfl
      rw [(Client.passed_lists system.client _ _ _).2.2.2] at received
      contradiction
  | fault faults =>
      cases faults with
      | link id => exact frame (fun _ received => received) rfl
      | caller known late freed event_ =>
          rcases event_ with rfl | rfl | rfl <;> exact frame (fun _ received => received) rfl
      | search received noEnd =>
          have same : ∀ message, system.client.fault.receiver = .received message →
              system.client.receiver = .received message := fun _ same => same
          exact .inl (mentions_search received same mentioned)
      | dispatch searched used freed => exact frame (fun _ received => received) rfl

theorem mentions_step (taken : system.step event = some next) (mentioned : Mentions next id) :
    Mentions system id ∨ Sent next.client id := by
  unfold System.step at taken
  split at taken
  · contradiction
  · rename_i act own
    obtain ⟨client, moved, rfl⟩ := Option.map_eq_some_iff.mp taken
    rw [note_client]
    exact mentions_note (Client.moves_of_step moved)
      (fun delivery same => own delivery (by rw [same])) mentioned
  · rename_i request
    split at taken
    · rename_i enabled
      cases taken
      rcases mentioned with inside | inside | inside | inside
      · exact .inl (.inl (List.mem_of_mem_erase inside))
      · exact .inl (.inr (.inl inside))
      · obtain ⟨reply, member, rfl⟩ := inside
        rcases List.mem_append.mp member with old | new
        · exact .inl (.inr (.inr (.inl ⟨reply, old, rfl⟩)))
        · cases List.mem_singleton.mp new
          exact .inl (.inl enabled.1)
      · exact .inl (.inr (.inr (.inr inside)))
    · contradiction
  · rename_i request
    split at taken
    · rename_i enabled
      cases taken
      rcases mentioned with inside | inside | inside
      · exact .inl (.inl (List.mem_of_mem_erase inside))
      · rcases List.mem_append.mp inside with old | new
        · exact .inl (.inr (.inl old))
        · cases List.mem_singleton.mp new
          exact .inl (.inl enabled.1)
      · exact .inl (.inr (.inr inside))
    · contradiction
  · rename_i request
    split at taken
    · rename_i enabled
      cases taken
      rcases mentioned with inside | inside | inside | inside
      · exact .inl (.inl inside)
      · exact .inl (.inr (.inl (List.mem_of_mem_erase inside)))
      · obtain ⟨reply, member, rfl⟩ := inside
        rcases List.mem_append.mp member with old | new
        · exact .inl (.inr (.inr (.inl ⟨reply, old, rfl⟩)))
        · cases List.mem_singleton.mp new
          exact .inl (.inr (.inl enabled))
      · exact .inl (.inr (.inr (.inr inside)))
    · contradiction
  · rename_i delivery
    split at taken
    · rename_i enabled
      obtain ⟨client, moved, rfl⟩ := Option.map_eq_some_iff.mp taken
      rcases mentioned with inside | inside | inside | inside | inside
      · exact .inl (.inl inside)
      · exact .inl (.inr (.inl inside))
      · obtain ⟨reply, member, rfl⟩ := inside
        exact .inl (.inr (.inr (.inl ⟨reply, List.mem_of_mem_erase member, rfl⟩)))
      · exact .inl (.inr (.inr (.inr (.inl inside))))
      · obtain ⟨message, received, _, rfl⟩ := inside
        rw [(Client.receive_of_step moved).2] at received
        cases received
        exact .inl (.inr (.inr (.inl ⟨delivery, enabled, rfl⟩)))
    · contradiction
  · rename_i delivery
    split at taken
    · rename_i pushed
      obtain ⟨client, moved, rfl⟩ := Option.map_eq_some_iff.mp taken
      rcases mentioned with inside | inside | inside | inside | inside
      · exact .inl (.inl inside)
      · exact .inl (.inr (.inl inside))
      · exact .inl (.inr (.inr (.inl inside)))
      · exact .inl (.inr (.inr (.inr (.inl inside))))
      · obtain ⟨message, received, respond, rfl⟩ := inside
        rw [(Client.receive_of_step moved).2] at received
        cases received
        rw [respond] at pushed
        contradiction
    · contradiction

theorem sound_start (isNull : Bool) : Sound (start isNull) where
  client := Client.sound_initial isNull
  sent := fun id mentioned => by
    rcases mentioned with inside | inside | inside | inside | inside
    · contradiction
    · contradiction
    · obtain ⟨reply, member, _⟩ := inside
      contradiction
    · obtain ⟨reply, member, _⟩ := inside
      contradiction
    · obtain ⟨delivery, received, _⟩ := inside
      contradiction
  searched := fun delivery searched => by contradiction

/-- What the receiver carries after its search is in the log. -/
theorem searched_note (sound : Sound system) (moves : Moves system.client act client)
    (defined : system.client.undefined = false) (searched : client.receiver = .searched delivery)
    (respond : delivery.isRespond = true) : delivery ∈ (system.note act client).searchLog := by
  have before : act ≠ .search → client.receiver = system.client.receiver →
      delivery ∈ (system.note act client).searchLog := by
    intro other same
    rw [note_searchLog client other]
    exact sound.searched delivery (same ▸ searched) respond
  cases moves with
  | begin kind cmdId callback => exact before (by simp) rfl
  | advance known advances => exact before (by cases advances <;> simp) rfl
  | retire known retires => exact before (by cases retires <;> simp) rfl
  | link known here => exact before (by simp) rfl
  | receive delivery idle => contradiction
  | ignore received neither => contradiction
  | @hit message id received either hits =>
      cases searched
      rw [note_search _ received (show (Client.afterHit _ _ _).undefined = _ from defined), if_pos respond]
      simp
  | @miss message received either live missed =>
      cases searched
      rw [note_search _ received (show (Client.afterMiss _ _).undefined = _ from defined), if_pos respond]
      simp
  | skip searched null => contradiction
  | pass searched_ pointed known live =>
      rw [(Client.passed_lists system.client _ _ _).2.2.2] at searched
      contradiction
  | fault faults =>
      cases faults with
      | link id => exact before (by simp) rfl
      | caller known late freed event_ => exact before (by rcases event_ with rfl | rfl | rfl <;> simp) rfl
      | search received noEnd =>
          rw [show system.client.fault.receiver = system.client.receiver from rfl, received] at searched
          contradiction
      | dispatch searched used freed => exact before (by simp) rfl

theorem sound_step (sound : Sound system) (taken : system.step event = some next) : Sound next := by
  have mentions : ∀ id, Mentions next id → Mentions system id ∨ Sent next.client id :=
    fun id => mentions_step taken
  cases changes_of_step taken with
  | client moves defined own =>
      exact {
        client := (note_client _ _ _).symm ▸ Client.sound_moves sound.client moves
        sent := by
          intro id mentioned
          rw [note_client]
          rcases mentions id mentioned with old | new
          · exact sent_of_moves moves (sound.sent id old)
          · rw [note_client] at new
            exact new
        searched := by
          intro delivery searched respond
          rw [note_client] at searched
          exact searched_note sound moves defined searched respond }
  | receive message network idle client links searches =>
      have moves : Moves system.client (.receive message) _ := .receive message idle
      exact {
        client := client ▸ Client.sound_moves sound.client moves
        sent := by
          intro id mentioned
          rcases mentions id mentioned with old | new
          · exact client ▸ sent_of_moves moves (sound.sent id old)
          · exact new
        searched := by
          intro delivery searched
          rw [client] at searched
          contradiction }
  | server network client links searches =>
      exact {
        client := client ▸ sound.client
        sent := by
          intro id mentioned
          rcases mentions id mentioned with old | new
          · exact client ▸ sound.sent id old
          · exact new
        searched := by
          intro delivery searched respond
          rw [searches]
          exact sound.searched delivery (client ▸ searched) respond }

theorem Lost.back (lost : Lost next id)
    (waits : ∀ call, next.client.calls[id]? = some call → Awaits call →
      ∃ before, system.client.calls[id]? = some before ∧ Awaits before)
    (searches : next.searchLog = system.searchLog)
    (carried : Carried system id → Carried next id) : Lost system id where
  waits := by
    obtain ⟨call, known, awaits⟩ := lost.waits
    exact waits call known awaits
  consumed := searches ▸ lost.consumed
  gone := fun carries => lost.gone (carried carries)

theorem not_awaits_started (here : call.phase = .started) : ¬ Awaits call := by
  intro awaits
  rcases awaits.phase with sent | linked | waiting
  · rw [here] at sent
    contradiction
  · rw [here] at linked
    contradiction
  · rw [here] at waiting
    contradiction

theorem not_awaits_woken (here : call.phase = .woken ∨ ∃ status, call.phase = .returned status) :
    ¬ Awaits call := by
  intro awaits
  rcases here with woken | returned
  · rcases awaits.phase with same | same | same <;> rw [woken] at same <;> contradiction
  · obtain ⟨status, returned⟩ := returned
    rcases awaits.phase with same | same | same <;> rw [returned] at same <;> contradiction

/-- A call that changes alone and keeps waiting has waited before. -/
theorem noLost_setCall {after : Call} (kept : NoneLost system)
    (known : system.client.calls[id]? = some call)
    (calls : next.client.calls = (system.client.setCall id after).calls)
    (receiver : next.client.receiver = system.client.receiver)
    (callbackNode : next.client.callbackNode = system.client.callbackNode)
    (searches : next.searchLog = system.searchLog)
    (waits : Awaits after → (∃ delivery ∈ system.searchLog, delivery.origin = id) → Awaits call) :
    NoneLost next := by
  intro other lost
  have consumed := searches ▸ lost.consumed
  apply kept other
  apply lost.back _ searches
  · intro carries
    obtain ⟨delivery, searched, respond, origin, pointed⟩ := carries
    exact ⟨delivery, receiver.trans searched, respond, origin, callbackNode.trans pointed⟩
  · intro found there awaits
    rw [calls, Client.getElem?_setCall known] at there
    by_cases same : other = id
    · subst same
      rw [if_pos rfl] at there
      cases there
      exact ⟨call, known, waits awaits consumed⟩
    · rw [if_neg same] at there
      exact ⟨found, there, awaits⟩

theorem noLost_advance {phase : Client.Phase} (sound : Sound system) (kept : NoneLost system)
    (known : system.client.calls[id]? = some call) (advances : Advance id call act phase) :
    NoneLost (system.note act (system.client.setCall id { call with phase })) := by
  have other : act ≠ .search := by cases advances <;> simp
  apply noLost_setCall kept known (by rw [note_client]) (by rw [note_client]; rfl)
    (by rw [note_client]; rfl) (note_searchLog _ other)
  intro awaits consumed
  cases advances with
  | send here =>
      obtain ⟨found, there, begun⟩ := sound.sent id (.inr (.inr (.inr (.inl consumed))))
      cases known.symm.trans there
      exact absurd here begun
  | wait here live => exact ⟨awaits.request, awaits.synchronous, .inr (.inl here)⟩
  | spurious here => exact absurd awaits (not_awaits_woken (.inl rfl))
  | finish here live => exact absurd awaits (not_awaits_woken (.inr ⟨0, rfl⟩))

theorem noLost_retire (kept : NoneLost system) (known : system.client.calls[id]? = some call)
    (retires : Retire id call act) :
    NoneLost (system.note act
      (system.client.setCall id { call with phase := .returned 1, live := false })) := by
  have other : act ≠ .search := by cases retires <;> simp
  apply noLost_setCall kept known (by rw [note_client]) (by rw [note_client]; rfl)
    (by rw [note_client]; rfl) (note_searchLog _ other)
  intro awaits _
  exact absurd awaits (not_awaits_woken (.inr ⟨1, rfl⟩))

theorem noLost_link (kept : NoneLost system) (known : system.client.calls[id]? = some call)
    (here : call.phase = .sent) : NoneLost (system.note (.link id) (system.client.linked id call)) := by
  apply noLost_setCall kept known (by rw [note_client]; rfl) (by rw [note_client]; rfl)
    (by rw [note_client]; rfl) (note_searchLog _ (by simp))
  intro awaits _
  exact ⟨awaits.request, awaits.synchronous, .inl here⟩

/-- A completed search is right exactly when it ends at the node of its own request. -/
theorem noLost_search {pointer : NodePointer} (kept : NoneLost system)
    (received : system.client.receiver = .received delivery)
    (ends : Client.EndsAt system.client delivery pointer)
    (calls : next.client.calls = system.client.calls)
    (searched : next.client.receiver = .searched delivery) (pointed : next.client.callbackNode = pointer)
    (searches : next.searchLog =
      if delivery.isRespond then system.searchLog ++ [delivery] else system.searchLog) :
    NoneLost next ↔ Heard system .search := by
  have uncarried : ∀ id, ¬ Carried system id := by
    intro id carries
    obtain ⟨message, carrying, _⟩ := carries
    rw [received] at carrying
    contradiction
  constructor
  · intro kept message call same respond known awaits
    cases received.symm.trans same
    suffices own : pointer = .node delivery.origin from own ▸ ends
    by_contra elsewhere
    have logged : delivery ∈ next.searchLog := by
      rw [searches, if_pos respond]
      simp
    have gone : ¬ Carried next delivery.origin := by
      intro carries
      obtain ⟨_, _, _, _, there⟩ := carries
      exact elsewhere (pointed.symm.trans there)
    exact kept delivery.origin ⟨⟨call, calls ▸ known, awaits⟩, ⟨delivery, logged, rfl⟩, gone⟩
  · intro heard id lost
    obtain ⟨call, known, awaits⟩ := lost.waits
    obtain ⟨message, member, rfl⟩ := lost.consumed
    rw [calls] at known
    have earlier : message ∉ system.searchLog := by
      intro old
      exact kept message.origin ⟨⟨call, known, awaits⟩, ⟨message, old, rfl⟩, uncarried _⟩
    rw [searches] at member
    split at member
    · rename_i respond
      rcases List.mem_append.mp member with old | new
      · exact absurd old earlier
      · cases List.mem_singleton.mp new
        have own := ends.unique (heard delivery call received respond known awaits)
        exact lost.gone ⟨delivery, searched, respond, rfl, pointed.trans own⟩
    · exact absurd member earlier

/-- A node is signalled in time exactly when its caller waits, if the reply is its own. -/
theorem noLost_pass (sound : Sound system) (kept : NoneLost system)
    (searched : system.client.receiver = .searched delivery)
    (pointed : system.client.callbackNode = .node id)
    (known : system.client.calls[id]? = some call) :
    NoneLost { system with client := system.client.passed id call delivery } ↔
      Heard system .dispatch := by
  have idle := (Client.passed_lists system.client id call delivery).2.2.2
  have late := sound.client.pointedLate pointed known
  constructor
  · intro right message found same respond there found_ linked
    cases searched.symm.trans same
    cases pointed.symm.trans there
    cases known.symm.trans found_
    have waits : ¬ (call.kind = .register ∨ call.callback.isSome) := by
      intro returns
      rcases (sound.client.callAt known).waits returns with early | returned
      · rw [late] at early
        contradiction
      · rw [linked] at returned
        exact absurd returned.choose_spec (by simp)
    have synchronous : call.callback = none := Option.not_isSome_iff_eq_none.mp fun some_ => waits (.inr some_)
    have request : call.kind = .request := by
      cases kind : call.kind with
      | request => rfl
      | register => exact absurd (.inl kind) waits
    have signalled : (delivery.isRespond && call.callback.isNone) = true := by
      rw [respond, synchronous]
      rfl
    have unheard := Client.passed_signalled known signalled
    rw [if_neg (by rw [linked]; simp)] at unheard
    have logged := sound.searched delivery searched respond
    have lost : Lost { system with client := system.client.passed delivery.origin call delivery }
        delivery.origin := by
      refine ⟨⟨call, unheard, request, synchronous, .inr (.inl linked)⟩, ⟨delivery, logged, rfl⟩, ?_⟩
      intro carries
      obtain ⟨_, carrying, _⟩ := carries
      rw [show _ = Client.Receiver.idle from idle] at carrying
      contradiction
    exact right delivery.origin lost
  · intro heard other lost
    obtain ⟨after, there, awaits⟩ := lost.waits
    by_cases same : other = id
    · subst same
      have before : Awaits call → delivery.isRespond = true ∧ delivery.origin = other := by
        intro waiting
        by_contra elsewhere
        have uncarried : ¬ Carried system other := by
          intro carries
          obtain ⟨message, carrying, respond, origin, _⟩ := carries
          cases searched.symm.trans carrying
          exact elsewhere ⟨respond, origin⟩
        exact kept other ⟨⟨call, known, waiting⟩, lost.consumed, uncarried⟩
      by_cases signalled : (delivery.isRespond && call.callback.isNone) = true
      · cases there.symm.trans (Client.passed_signalled known signalled)
        by_cases waiting : call.phase = .waiting
        · exact absurd awaits (not_awaits_woken (.inl (if_pos waiting)))
        · have phase := awaits.phase
          simp only [if_neg waiting] at phase
          obtain ⟨respond, rfl⟩ := before ⟨awaits.request, awaits.synchronous, phase⟩
          have unlinked := heard delivery call searched respond pointed known
          rcases phase with sent | linked | waiting_
          · rw [sent] at late
            contradiction
          · exact unlinked linked
          · exact waiting waiting_
      · cases there.symm.trans (Client.passed_freed known signalled)
        have respond := (before ⟨awaits.request, awaits.synchronous, awaits.phase⟩).1
        rw [respond, show call.callback = none from awaits.synchronous] at signalled
        exact signalled rfl
    · have before := (Client.passed_other call delivery same).symm.trans there
      have uncarried : ¬ Carried system other := by
        intro carries
        obtain ⟨_, _, _, _, there⟩ := carries
        cases pointed.symm.trans there
        contradiction
      exact kept other ⟨⟨after, before, awaits⟩, lost.consumed, uncarried⟩

/-- A step that leaves the waiting calls, the log and the receiver's find alone. -/
theorem noLost_frame (kept : NoneLost system)
    (waits : ∀ (id : Nat) (call : Call), next.client.calls[id]? = some call → Awaits call →
      system.client.calls[id]? = some call)
    (searches : next.searchLog = system.searchLog)
    (carried : ∀ id, Carried system id → Carried next id) : NoneLost next := by
  intro id lost
  apply kept id
  apply lost.back _ searches (carried id)
  intro call known awaits
  exact ⟨call, waits id call known awaits, awaits⟩

theorem noLost_note (sound : Sound system) (kept : NoneLost system)
    (moves : Moves system.client act client) (defined : system.client.undefined = false)
    (still : client.undefined = false) (own : ∀ delivery, act ≠ .receive delivery) :
    NoneLost (system.note act client) ↔ Heard system act := by
  cases moves with
  | begin kind cmdId callback =>
      apply iff_of_true _ trivial
      refine noLost_frame kept ?_ rfl fun id carries => carries
      intro id call known awaits
      rw [note_client, List.getElem?_append] at known
      split at known
      · exact known
      · rcases List.mem_singleton.mp (List.mem_of_getElem? known) with rfl
        exact absurd awaits (not_awaits_started rfl)
  | advance known advances =>
      apply iff_of_true (noLost_advance sound kept known advances)
      cases advances <;> trivial
  | retire known retires =>
      apply iff_of_true (noLost_retire kept known retires)
      cases retires <;> trivial
  | link known here => exact iff_of_true (noLost_link kept known here) trivial
  | receive delivery idle => exact absurd rfl (own delivery)
  | @ignore delivery received neither =>
      have searches := note_search { system.client with receiver := .idle } received defined
      have noReply := (Bool.or_eq_false_iff.mp neither).1
      rw [noReply] at searches
      apply iff_of_true
      · apply noLost_frame kept _ searches
        · intro id carries
          obtain ⟨_, carrying, _⟩ := carries
          rw [received] at carrying
          contradiction
        · intro id call known _
          rwa [note_client] at known
      · intro message call same respond
        cases received.symm.trans same
        rw [noReply] at respond
        contradiction
  | @hit delivery id received either hits =>
      exact noLost_search kept received (.hit hits) (by rw [note_client]; rfl)
        (by rw [note_client]; rfl) (by rw [note_client]; rfl) (note_search _ received defined)
  | @miss delivery received either live missed =>
      exact noLost_search kept received (.miss live missed) (by rw [note_client]; rfl)
        (by rw [note_client]; rfl) (by rw [note_client]; rfl) (note_search _ received defined)
  | skip searched null =>
      apply iff_of_true
      · refine noLost_frame kept (fun id call known _ => known) rfl ?_
        intro id carries
        obtain ⟨_, _, _, _, pointed⟩ := carries
        rw [null] at pointed
        contradiction
      · intro delivery call _ _ pointed
        rw [null] at pointed
        contradiction
  | pass searched pointed known live => exact noLost_pass sound kept searched pointed known
  | fault faults => contradiction

/-- Only the client can be late. -/
theorem inTime_network (network : ∀ act, event ≠ .client act) : InTime system event := by
  cases event with
  | client act => exact absurd rfl (network act)
  | _ => trivial

/-- The step rule for the client's own threads, whether the step is defined or not. -/
theorem noLost_client (sound : Sound system) (good : NoLostReply system)
    (own : ∀ delivery, act ≠ .receive delivery) (moved : Client.step system.client act = some client) :
    NoLostReply (system.note act client) ↔ InTime system (.client act) := by
  have moves := Client.moves_of_step moved
  have live := Client.defined_iff_onLive moved
  cases undefined : client.undefined with
  | false =>
      have heard := noLost_note sound good.kept moves good.defined undefined own
      constructor
      · exact fun kept => ⟨live.mp undefined, heard.mp kept.kept⟩
      · exact fun both => ⟨(congrArg _ (note_client system act client)).trans undefined, heard.mpr both.2⟩
  | true =>
      refine iff_of_false ?_ ?_
      · intro kept
        have defined := kept.defined
        rw [note_client, undefined] at defined
        contradiction
      · intro both
        have defined := live.mpr both.1
        rw [undefined] at defined
        contradiction

theorem noLost_step (sound : Sound system) (good : NoLostReply system)
    (taken : system.step event = some next) : NoLostReply next ↔ InTime system event := by
  cases changes_of_step taken with
  | client moves defined own =>
      obtain ⟨own, client, moved, same⟩ := client_of_step taken
      exact same ▸ noLost_client sound good own moved
  | receive message network idle client links searches =>
      refine iff_of_true ⟨by rw [client]; exact good.defined, ?_⟩ (inTime_network network)
      apply noLost_frame good.kept _ searches
      · intro id carries
        obtain ⟨_, carrying, _⟩ := carries
        rw [idle] at carrying
        contradiction
      · intro id call known _
        rw [client] at known
        exact known
  | server network client links searches =>
      refine iff_of_true ⟨by rw [client]; exact good.defined, ?_⟩ (inTime_network network)
      apply noLost_frame good.kept (fun id call known _ => client ▸ known) searches
      intro id carries
      unfold Carried
      rw [client]
      exact carries

/-- No run of client and server loses a reply exactly when the client touches no freed node, every
reply is searched for after its node was linked, and signalled after its caller began to wait. -/
theorem noLostReply_iff_inTime (isNull : Bool) (events : List Event) :
    Run.Always step NoLostReply (start isNull) events ↔ Run.Along step InTime (start isNull) events :=
  Run.always_iff_along (fun _ _ _ sound good taken => noLost_step sound good taken)
    (fun _ _ _ sound _ _ taken => sound_step sound taken) (sound_start isNull)
    ⟨rfl, fun id lost => by
      obtain ⟨delivery, member, _⟩ := lost.consumed
      contradiction⟩

/-- The reply is received before the caller has linked its node. -/
private def replyBeforeLink : List Event :=
  [.client (.begin .request cmdRequestInit none), .client (.send 0), .serve 0,
    .deliver ⟨cmdRequestInit ||| cmdRespond, 0⟩, .client .search, .client .dispatch,
    .client (.link 0), .client (.wait 0)]

/-- The caller waits for a reply that has gone. -/
theorem reply_before_link_lost : ¬ Run.Always step NoLostReply (start true) replyBeforeLink := by
  intro always
  have outcome : (Run.run step (start true) replyBeforeLink).map (fun system =>
      (system.client.calls, system.searchLog, system.client.receiver)) =
        some ([⟨.request, cmdRequestInit, none, .waiting, true⟩],
          [⟨cmdRequestInit ||| cmdRespond, 0⟩], .idle) := by
    decide +kernel
  obtain ⟨final, reached, facts⟩ := Option.map_eq_some_iff.mp outcome
  simp only [Prod.mk.injEq] at facts
  obtain ⟨calls, searches, idle⟩ := facts
  refine (always _ final (List.prefix_refl _) reached).kept 0 ⟨?_, ?_, fun carries => ?_⟩
  · rw [calls]
    exact ⟨_, rfl, rfl, rfl, .inr (.inr rfl)⟩
  · rw [searches]
    exact ⟨_, List.mem_singleton.mpr rfl, rfl⟩
  · obtain ⟨_, carrying, _⟩ := carries
    rw [idle] at carrying
    contradiction

end Wakeup

end Dwadelib.Ipc.System
