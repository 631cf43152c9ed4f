import Dwadelib.Keyed
import Dwadelib.Ipc.System

namespace Dwadelib.Ipc.System

open Keyed
open Client (Call Delivery Moves Receiver)

/-! # Which request a reply goes to

A reply carries its command id and nothing else of its request. Among the requests with one
id the client takes the one whose node was linked first.
-/

def NotCrossed (system : System) : Prop :=
  ∀ handed ∈ system.client.handed, handed.delivery.isRespond = true →
    handed.delivery.origin = handed.id

/-- The requests with this id, in the order in which their nodes were linked. -/
def linksOf (system : System) (cmdId : UInt32) : List Nat := ofKey system.cmdIdOf cmdId system.linkLog

/-- The requests whose replies were searched for under this id, in order. -/
def searchesOf (system : System) (cmdId : UInt32) : List Nat :=
  (ofKey (fun delivery => some delivery.searched) cmdId system.searchLog).map Delivery.origin

def receivedBy : Receiver → Option Delivery
  | .received delivery => some delivery
  | _ => none

/-- The reply searched for is the next one, in the order in which the nodes of its id were
linked. -/
def InOrder (system : System) (event : Event) : Prop :=
  event = .client .search → ∀ delivery ∈ receivedBy system.client.receiver,
    delivery.isRespond = true →
      system.searchesOf delivery.searched ++ [delivery.origin] <+: system.linksOf delivery.searched

instance (system : System) (event : Event) : Decidable (InOrder system event) :=
  inferInstanceAs (Decidable (event = .client .search → ∀ delivery ∈ receivedBy system.client.receiver,
    delivery.isRespond = true →
      system.searchesOf delivery.searched ++ [delivery.origin] <+: system.linksOf delivery.searched))

/-- The nodes linked under an id are those linked and not yet searched for. -/
structure Ordered (system : System) : Prop where
  client : Client.Sound system.client
  known : ∀ id ∈ system.linkLog, (system.cmdIdOf id).isSome
  books : ∀ cmdId, system.linksOf cmdId =
    system.searchesOf cmdId ++ ofKey system.cmdIdOf cmdId system.client.responseCallbackList
  carried : ∀ delivery, system.client.receiver = .searched delivery → delivery.isRespond = true →
    system.client.callbackNode = .node delivery.origin
  notCrossed : NotCrossed system

section Correlation

variable {system next : System} {event : Event} {act : Client.Event} {client : Client.State}
  {id : Nat} {call : Call} {delivery : Delivery} {cmdId : UInt32}

theorem cmdIdOf_of_moves (moves : Moves system.client act client) (same : next.client = client)
    (known : (system.cmdIdOf id).isSome) : next.cmdIdOf id = system.cmdIdOf id := by
  obtain ⟨call, found⟩ := Option.isSome_iff_exists.mp (Option.isSome_map.symm.trans known)
  obtain ⟨after, there, later⟩ := moves.calls.keeps found
  simp only [cmdIdOf, same, found, there, Option.map_some, later.cmdId]

/-- A node that is not freed is looked up under the id of its request. -/
theorem cmdIdOf_of_live (live : system.client.cmdIdOf id = some cmdId) :
    system.cmdIdOf id = some cmdId := by
  unfold Client.State.cmdIdOf at live
  unfold cmdIdOf
  cases found : system.client.calls[id]? with
  | none =>
      rw [found] at live
      contradiction
  | some call =>
      rw [found, Option.bind_some] at live
      split at live
      · exact live
      · contradiction

theorem known_of_linked (ordered : Ordered system)
    (member : id ∈ system.client.responseCallbackList) : (system.cmdIdOf id).isSome := by
  obtain ⟨call, found, _⟩ := ordered.client.requests id member
  simp [cmdIdOf, found]

/-- Steps that leave the list of requests and the logs alone. -/
theorem ordered_frame (ordered : Ordered system) (moves : Moves system.client act next.client)
    (links : next.linkLog = system.linkLog) (searches : next.searchLog = system.searchLog)
    (responses : next.client.responseCallbackList = system.client.responseCallbackList)
    (notCrossed : NotCrossed next)
    (carried : ∀ delivery, next.client.receiver = .searched delivery → delivery.isRespond = true →
      next.client.callbackNode = .node delivery.origin) : Ordered next where
  client := Client.sound_moves ordered.client moves
  known := by
    intro id member
    rw [links] at member
    rw [cmdIdOf_of_moves moves rfl (ordered.known id member)]
    exact ordered.known id member
  books := by
    intro cmdId
    have linked : ofKey next.cmdIdOf cmdId next.linkLog = ofKey system.cmdIdOf cmdId system.linkLog := by
      rw [links]
      exact ofKey_congr fun id member => cmdIdOf_of_moves moves rfl (ordered.known id member)
    have waiting : ofKey next.cmdIdOf cmdId next.client.responseCallbackList =
        ofKey system.cmdIdOf cmdId system.client.responseCallbackList := by
      rw [responses]
      exact ofKey_congr fun id member =>
        cmdIdOf_of_moves moves rfl (known_of_linked ordered member)
    unfold linksOf searchesOf
    rw [linked, waiting, searches]
    exact ordered.books cmdId
  carried := carried
  notCrossed := notCrossed

theorem ordered_link (ordered : Ordered system) (known : system.client.calls[id]? = some call)
    (here : call.phase = .sent) (defined : system.client.undefined = false) :
    Ordered (system.note (.link id) (system.client.linked id call)) := by
  have moves : Moves system.client (.link id) (system.client.linked id call) := .link known here
  have registered : (system.cmdIdOf id).isSome := by simp [cmdIdOf, known]
  have carried : ∀ delivery, (system.client.linked id call).receiver = .searched delivery →
      delivery.isRespond = true →
        (system.client.linked id call).callbackNode = .node delivery.origin := ordered.carried
  cases kind : call.kind with
  | register =>
      have unlogged : system.note (.link id) (system.client.linked id call) =
          { system with client := system.client.linked id call } := by
        simp [note, isRequest, known, kind]
      rw [unlogged]
      exact ordered_frame ordered moves rfl rfl (by simp [Client.State.linked, Client.State.setCall, kind])
        ordered.notCrossed carried
  | request =>
      have logged : system.note (.link id) (system.client.linked id call) =
          { system with client := system.client.linked id call, linkLog := system.linkLog ++ [id] } := by
        simp [note, isRequest, known, kind, Client.State.linked, Client.State.setCall, defined]
      have responses : (system.client.linked id call).responseCallbackList =
          system.client.responseCallbackList ++ [id] := by simp [Client.State.linked, kind]
      rw [logged]
      have same : ∀ other, (system.cmdIdOf other).isSome →
          cmdIdOf { system with client := system.client.linked id call, linkLog := system.linkLog ++ [id] }
            other = system.cmdIdOf other :=
        fun other known => cmdIdOf_of_moves moves rfl known
      have linked : ∀ (cmdId : UInt32) (list : List Nat),
          (∀ other ∈ list, (system.cmdIdOf other).isSome) →
          ofKey (cmdIdOf { system with
            client := system.client.linked id call, linkLog := system.linkLog ++ [id] }) cmdId list =
          ofKey system.cmdIdOf cmdId list :=
        fun _ list inside => ofKey_congr fun other member => same other (inside other member)
      exact {
        client := Client.sound_moves ordered.client moves
        known := by
          intro other member
          rcases List.mem_append.mp member with old | new
          · rw [same other (ordered.known other old)]
            exact ordered.known other old
          · cases List.mem_singleton.mp new
            rw [same _ registered]
            exact registered
        books := by
          intro cmdId
          have books := ordered.books cmdId
          unfold linksOf searchesOf at books ⊢
          dsimp only
          rw [responses, ofKey_append, ofKey_append, linked _ _ ordered.known,
            linked _ _ (fun other member => known_of_linked ordered member), books, List.append_assoc]
        carried := carried
        notCrossed := ordered.notCrossed }

theorem waiting_inOrder (ordered : Ordered system)
    (inOrder : system.searchesOf delivery.searched ++ [delivery.origin] <+:
      system.linksOf delivery.searched) :
    ∃ rest, ofKey system.cmdIdOf delivery.searched system.client.responseCallbackList =
      delivery.origin :: rest := by
  rw [ordered.books, List.prefix_append_right_inj] at inOrder
  obtain ⟨rest, waiting⟩ := inOrder
  exact ⟨rest, waiting.symm⟩

/-- A reply searched for in order is found at its own node. -/
theorem hit_inOrder (ordered : Ordered system) (respond : delivery.isRespond = true)
    (inOrder : system.searchesOf delivery.searched ++ [delivery.origin] <+:
      system.linksOf delivery.searched)
    (hits : Client.Hits system.client delivery id) :
    id = delivery.origin ∧ ∃ before after, system.client.responseCallbackList = before ++ id :: after ∧
      system.cmdIdOf id = some delivery.searched ∧
      ∀ other ∈ before, system.cmdIdOf other ≠ some delivery.searched := by
  have list : system.client.listFor delivery = system.client.responseCallbackList := if_pos respond
  obtain ⟨before, after, split, same, others⟩ := hits.1
  rw [list] at split
  have absent : ∀ other ∈ before, system.cmdIdOf other ≠ some delivery.searched := by
    intro other member equal
    obtain ⟨found, live, different⟩ := others other member
    rw [cmdIdOf_of_live live] at equal
    exact different (Option.some.inj equal)
  obtain ⟨rest, waiting⟩ := waiting_inOrder ordered inOrder
  rw [split, ofKey_first absent (cmdIdOf_of_live same)] at waiting
  exact ⟨(List.cons.inj waiting).1, before, after, split, cmdIdOf_of_live same, absent⟩

/-- It is not missed: its node is linked, and freed if it is not found. -/
theorem not_missed_inOrder (ordered : Ordered system) (respond : delivery.isRespond = true)
    (inOrder : system.searchesOf delivery.searched ++ [delivery.origin] <+:
      system.linksOf delivery.searched)
    (live : ∀ id ∈ system.client.listFor delivery, (system.client.cmdIdOf id).isSome) :
    firstWith system.client.cmdIdOf delivery.searched (system.client.listFor delivery) ≠ none := by
  intro missed
  rw [show system.client.listFor delivery = system.client.responseCallbackList from if_pos respond]
    at live missed
  obtain ⟨rest, waiting⟩ := waiting_inOrder ordered inOrder
  obtain ⟨linked, known⟩ := mem_ofKey.mp (waiting ▸ List.mem_cons_self)
  obtain ⟨found, alive⟩ := Option.isSome_iff_exists.mp (live delivery.origin linked)
  have same : found = delivery.searched := Option.some.inj ((cmdIdOf_of_live alive).symm.trans known)
  exact firstWith_eq_none_iff.mp missed delivery.origin linked (same ▸ alive)

/-- The state after a reply was searched for in order. -/
theorem ordered_reply (ordered : Ordered system) (respond : delivery.isRespond = true)
    (inOrder : system.searchesOf delivery.searched ++ [delivery.origin] <+:
      system.linksOf delivery.searched)
    (hits : Client.Hits system.client delivery id)
    (client : next.client = Client.afterHit system.client delivery id)
    (links : next.linkLog = system.linkLog)
    (searches : next.searchLog = system.searchLog ++ [delivery]) (sound : Client.Sound next.client) :
    Ordered next := by
  obtain ⟨rfl, before, after, split, same, absent⟩ := hit_inOrder ordered respond inOrder hits
  have fixed : next.cmdIdOf = system.cmdIdOf := by
    unfold cmdIdOf
    rw [client]
    rfl
  have responses : next.client.responseCallbackList =
      system.client.responseCallbackList.erase delivery.origin := by
    rw [client, Client.afterHit, if_pos respond]
  exact {
    client := sound
    known := by
      rw [links, fixed]
      exact ordered.known
    books := by
      intro cmdId
      have books := ordered.books cmdId
      unfold linksOf searchesOf at books ⊢
      rw [fixed, links, searches, responses, ofKey_append, List.map_append, books, List.append_assoc]
      congr 1
      by_cases wanted : delivery.searched = cmdId
      · subst wanted
        have logged : ofKey (fun delivery : Delivery => some delivery.searched) delivery.searched
            [delivery] = [delivery] := by simp [ofKey]
        rw [split, ofKey_first absent same, ofKey_erase_first absent same, logged]
        rfl
      · rw [ofKey_erase_other (by rw [same]; simpa using wanted),
          ofKey_cons_other (by simpa using wanted)]
        rfl
    carried := by
      intro message searched _
      rw [client] at searched
      cases searched
      rw [client]
      rfl
    notCrossed := by
      intro given member
      rw [client] at member
      exact ordered.notCrossed given member }

theorem ordered_pass (ordered : Ordered system)
    (searched : system.client.receiver = .searched delivery)
    (pointed : system.client.callbackNode = .node id)
    (known : system.client.calls[id]? = some call) (live : call.live = true) :
    Ordered { system with client := system.client.passed id call delivery } := by
  have moves : Moves system.client .dispatch (system.client.passed id call delivery) :=
    .pass searched pointed known live
  obtain ⟨responses, _, _, idle⟩ := Client.passed_lists system.client id call delivery
  refine ordered_frame ordered moves rfl rfl responses ?_ ?_
  · intro given member respond
    change given ∈ (system.client.passed id call delivery).handed at member
    rw [Client.passed_handed] at member
    split at member
    · rcases List.mem_append.mp member with old | new
      · exact ordered.notCrossed given old respond
      · cases List.mem_singleton.mp new
        cases (ordered.carried delivery searched respond).symm.trans pointed
        rfl
    · exact ordered.notCrossed given member respond
  · intro message carries _
    rw [show _ = Receiver.idle from idle] at carries
    contradiction

/-- A search that unlinks nothing and is not for a reply, and the steps outside of searches. -/
theorem ordered_note_frame (ordered : Ordered system) (moves : Moves system.client act client)
    (links : (system.note act client).linkLog = system.linkLog)
    (searches : (system.note act client).searchLog = system.searchLog)
    (responses : client.responseCallbackList = system.client.responseCallbackList)
    (handed : client.handed = system.client.handed)
    (carried : ∀ delivery, client.receiver = .searched delivery → delivery.isRespond = true →
      client.callbackNode = .node delivery.origin) : Ordered (system.note act client) := by
  have noted : Moves system.client act (system.note act client).client := by rwa [note_client]
  apply ordered_frame ordered noted links searches (by rwa [note_client])
  · intro given member
    rw [note_client, handed] at member
    exact ordered.notCrossed given member
  · rwa [note_client]

theorem ordered_note (ordered : Ordered system) (inOrder : InOrder system (.client act))
    (moves : Moves system.client act client) (defined : system.client.undefined = false)
    (own : ∀ delivery, act ≠ .receive delivery) : Ordered (system.note act client) := by
  have step := moves
  have next : ∀ delivery, system.client.receiver = .received delivery → act = .search →
      delivery.isRespond = true → system.searchesOf delivery.searched ++ [delivery.origin] <+:
        system.linksOf delivery.searched := by
    intro delivery received search respond
    exact inOrder (by rw [search]) delivery (by rw [received]; rfl) respond
  cases moves with
  | begin kind cmdId callback =>
      exact ordered_note_frame ordered step rfl rfl rfl rfl ordered.carried
  | advance known advances =>
      exact ordered_note_frame ordered step (note_linkLog _ (by cases advances <;> simp))
        (note_searchLog _ (by cases advances <;> simp)) rfl rfl ordered.carried
  | retire known retires =>
      exact ordered_note_frame ordered step (note_linkLog _ (by cases retires <;> simp))
        (note_searchLog _ (by cases retires <;> simp)) rfl rfl ordered.carried
  | link known here => exact ordered_link ordered known here defined
  | receive delivery idle => exact absurd rfl (own delivery)
  | ignore received neither =>
      have searches := note_search { system.client with receiver := .idle } received defined
      rw [(Bool.or_eq_false_iff.mp neither).1] at searches
      exact ordered_note_frame ordered step (note_linkLog _ (by simp)) searches rfl rfl fun _ idle => by contradiction
  | @hit delivery id received either hits =>
      have searches := note_search (Client.afterHit system.client delivery id) received defined
      cases respond : delivery.isRespond with
      | true =>
          rw [respond, if_pos rfl] at searches
          exact ordered_reply ordered respond (next delivery received rfl respond) hits
            (note_client _ _ _) (note_linkLog _ (by simp)) searches
            (by rw [note_client]; exact Client.sound_moves ordered.client step)
      | false =>
          rw [respond] at searches
          apply ordered_note_frame ordered step (note_linkLog _ (by simp)) searches
            (by simp [Client.afterHit, respond]) rfl
          intro message searched answers
          cases searched
          rw [respond] at answers
          contradiction
  | @miss delivery received either live missed =>
      have searches := note_search (Client.afterMiss system.client delivery) received defined
      cases respond : delivery.isRespond with
      | true =>
          have found := not_missed_inOrder ordered respond (next delivery received rfl respond) live
          exact absurd missed found
      | false =>
          rw [respond] at searches
          apply ordered_note_frame ordered step (note_linkLog _ (by simp)) searches rfl rfl
          intro message searched answers
          cases searched
          rw [respond] at answers
          contradiction
  | skip searched null =>
      exact ordered_note_frame ordered step rfl rfl rfl rfl fun _ idle => by contradiction
  | pass searched pointed known live => exact ordered_pass ordered searched pointed known live
  | fault faults =>
      obtain ⟨links, searches⟩ := note_fault system act
      exact ordered_note_frame ordered step links searches rfl rfl ordered.carried

theorem ordered_start (isNull : Bool) : Ordered (start isNull) where
  client := Client.sound_initial isNull
  known := fun _ member => by contradiction
  books := fun _ => rfl
  carried := fun _ searched => by contradiction
  notCrossed := fun _ member => by contradiction

theorem ordered_step (ordered : Ordered system) (inOrder : InOrder system event)
    (taken : system.step event = some next) : Ordered next := by
  cases changes_of_step taken with
  | client moves defined own => exact ordered_note ordered inOrder moves defined own
  | receive delivery network idle client links searches =>
      have moves : Moves system.client (.receive delivery) next.client :=
        client ▸ .receive delivery idle
      apply ordered_frame ordered moves links searches (by rw [client])
      · intro given member
        rw [client] at member
        exact ordered.notCrossed given member
      · intro message searched
        rw [client] at searched
        contradiction
  | server network client links searches =>
      have fixed : next.cmdIdOf = system.cmdIdOf := by
        unfold cmdIdOf
        rw [client]
      exact {
        client := client ▸ ordered.client
        known := by
          rw [links, fixed]
          exact ordered.known
        books := by
          intro cmdId
          unfold linksOf searchesOf
          rw [links, searches, fixed, client]
          exact ordered.books cmdId
        carried := client ▸ ordered.carried
        notCrossed := by
          intro given member
          rw [client] at member
          exact ordered.notCrossed given member }

/-- An asynchronous request and a synchronous one with the same id, both linked. -/
private def twoRequests : List Event :=
  [.client (.begin .request cmdRequestInit (some 0)), .client (.send 0), .client (.link 0), .record 0,
    .client (.begin .request cmdRequestInit none), .client (.send 1), .client (.link 1),
    .client (.wait 1), .serve 1]

/-- The reply to one of the two is received and handed on. -/
private def handOn (id : Nat) : List Event :=
  [.deliver ⟨cmdRequestInit ||| cmdRespond, id⟩, .client .search, .client .dispatch]

end Correlation

end Dwadelib.Ipc.System
