import Dwadelib.Ipc.Client

namespace Dwadelib.Ipc.Client

/-! # What the receiver dispatches to

The variable that the search loop moves along the list is tested against `NULL` afterwards.
It is the node that was found after a hit, but the last node of the list after a miss, and
over an empty list what the search of an earlier message left in it.
-/

section Search

variable {state next : State} {delivery : Delivery} {id : Nat} {event : Event}

/-- The loop reaches a live node with the id, and unlinking it touches no freed node. -/
def Hits (state : State) (delivery : Delivery) (id : Nat) : Prop :=
  Reaches state.cmdIdOf delivery.searched (state.listFor delivery) id ∧
    (delivery.isRespond = true → (listDelete state.cmdIdOf state.responseCallbackList id).isSome)

/-- What the variable points to after a search that touches no freed node. -/
inductive EndsAt (state : State) (delivery : Delivery) : NodePointer → Prop
  | hit {id : Nat} (hits : Hits state delivery id) : EndsAt state delivery (.node id)
  | miss (live : ∀ id ∈ state.listFor delivery, (state.cmdIdOf id).isSome)
      (missed : firstWith state.cmdIdOf delivery.searched (state.listFor delivery) = none) :
      EndsAt state delivery ((state.listFor delivery).getLast?.elim state.callbackNode .node)

/-- The state after a hit. -/
def afterHit (state : State) (delivery : Delivery) (id : Nat) : State :=
  { state with
    responseCallbackList :=
      if delivery.isRespond then state.responseCallbackList.erase id else state.responseCallbackList
    receiver := .searched delivery
    callbackNode := .node id }

/-- The state after a miss. -/
def afterMiss (state : State) (delivery : Delivery) : State :=
  { state with
    receiver := .searched delivery
    callbackNode := (state.listFor delivery).getLast?.elim state.callbackNode .node }

theorem search_hits (hits : Hits state delivery id) : state.search delivery = afterHit state delivery id := by
  obtain ⟨reaches, deletable⟩ := hits
  have searched := searchList_reaches reaches state.callbackNode
  simp only [State.search, searched, afterHit]
  cases respond : delivery.isRespond with
  | false => simp only [Bool.false_eq_true, if_false]
  | true =>
      obtain ⟨unlinked, deleted⟩ := Option.isSome_iff_exists.mp (deletable respond)
      simp only [deleted, eq_of_listDelete deleted, if_true]

theorem search_misses (live : ∀ id ∈ state.listFor delivery, (state.cmdIdOf id).isSome)
    (missed : firstWith state.cmdIdOf delivery.searched (state.listFor delivery) = none) :
    state.search delivery = afterMiss state delivery := by
  have searched := searchList_missed live missed state.callbackNode
  unfold State.search afterMiss
  rw [searched]
  cases (state.listFor delivery).getLast?.elim state.callbackNode NodePointer.node with
  | null => rfl
  | wild => rfl
  | node id => rfl

theorem EndsAt.unique {first second : NodePointer} (left : EndsAt state delivery first)
    (right : EndsAt state delivery second) : first = second := by
  cases left with
  | hit hits =>
      cases right with
      | hit others =>
          cases hits.1.firstWith.symm.trans others.1.firstWith
          rfl
      | miss live missed =>
          rw [hits.1.firstWith] at missed
          contradiction
  | miss live missed =>
      cases right with
      | hit hits =>
          rw [hits.1.firstWith] at missed
          contradiction
      | miss => rfl

/-- What a search can do: make an undefined access, hit, or miss. -/
theorem search_cases (state : State) (delivery : Delivery) :
    (state.search delivery = state.fault ∧ ∀ pointer, ¬ EndsAt state delivery pointer) ∨
    (∃ id, Hits state delivery id ∧ state.search delivery = afterHit state delivery id) ∨
    ((∀ id ∈ state.listFor delivery, (state.cmdIdOf id).isSome) ∧
      firstWith state.cmdIdOf delivery.searched (state.listFor delivery) = none ∧
      state.search delivery = afterMiss state delivery) := by
  cases searched : searchList state.cmdIdOf delivery.searched (state.listFor delivery)
      state.callbackNode with
  | none =>
      have faults : state.search delivery = state.fault := by simp only [State.search, searched]
      refine .inl ⟨faults, ?_⟩
      intro pointer ends
      cases ends with
      | hit hits =>
          rw [searchList_reaches hits.1] at searched
          contradiction
      | miss live missed =>
          rw [searchList_missed live missed] at searched
          contradiction
  | some result =>
      obtain ⟨callbackNode, hit⟩ := result
      rcases searchList_cases searched with reached | missed
      · obtain ⟨id, reaches, rfl, rfl⟩ := reached
        by_cases deletable : delivery.isRespond = true →
            (listDelete state.cmdIdOf state.responseCallbackList id).isSome
        · exact .inr (.inl ⟨id, ⟨reaches, deletable⟩, search_hits ⟨reaches, deletable⟩⟩)
        · have respond : delivery.isRespond = true := by
            by_contra other
            exact deletable fun both => absurd both other
          have stuck : listDelete state.cmdIdOf state.responseCallbackList id = none := by
            cases deleted : listDelete state.cmdIdOf state.responseCallbackList id with
            | none => rfl
            | some unlinked => exact absurd (fun _ => by rw [deleted]; rfl) deletable
          have faults : state.search delivery = state.fault := by
            simp only [State.search, searched, respond, if_true, stuck]
          refine .inl ⟨faults, ?_⟩
          intro pointer ends
          cases ends with
          | hit hits =>
              cases hits.1.firstWith.symm.trans reaches.firstWith
              exact deletable hits.2
          | miss live missed =>
              rw [reaches.firstWith] at missed
              contradiction
      · obtain ⟨live, missed, rfl, rfl⟩ := missed
        exact .inr (.inr ⟨live, missed, search_misses live missed⟩)

/-- What `start_receive` has to do with a received message: pass the first linked node with
its id, unlinked if the message is a reply; and nothing at all where no node has it. -/
def HandlesRight (state : State) (delivery : Delivery) : Prop :=
  match firstWith state.cmdIdOf delivery.searched (state.listFor delivery) with
  | some id =>
      (state.search delivery).undefined = false ∧
      (state.search delivery).callbackNode = .node id ∧
      (state.search delivery).responseCallbackList =
        (if delivery.isRespond then state.responseCallbackList.erase id else state.responseCallbackList) ∧
      (state.search delivery).registerCallbackList = state.registerCallbackList
  | none =>
      (∃ callbackNode, state.search delivery =
        { state with receiver := .searched delivery, callbackNode }) ∧
      ∀ later : State, later.callbackNode = (state.search delivery).callbackNode →
        later.dispatch delivery = { later with receiver := .idle }

/-- A message of one of the two kinds is about to be searched for. -/
def Searching (state : State) (delivery : Delivery) : Prop :=
  state.undefined = false ∧ state.receiver = .received delivery ∧
    (delivery.isRespond || delivery.isUnsolicited) = true

def Right (state : State) : Prop :=
  ∀ delivery, Searching state delivery → HandlesRight state delivery

/-- The message finds its node, or the list is empty and the variable is still `NULL`. -/
def Found (state : State) : Prop :=
  ∀ delivery, Searching state delivery →
    (∃ id, Hits state delivery id) ∨
      (state.listFor delivery = [] ∧ state.callbackNode = .null)

/-- Only `NULL` makes the dispatch do nothing, whatever other threads have done since. -/
theorem dispatch_nothing_iff {callbackNode : NodePointer} :
    (∀ later : State, later.callbackNode = callbackNode →
      later.dispatch delivery = { later with receiver := .idle }) ↔ callbackNode = .null := by
  constructor
  · intro nothing
    cases callbackNode with
    | null => rfl
    | wild =>
        have faulted := congrArg State.undefined (nothing (initial false) rfl)
        contradiction
    | node id =>
        have faulted := congrArg State.undefined
          (nothing { initial true with callbackNode := .node id } rfl)
        contradiction
  · intro null later same
    unfold State.dispatch
    rw [same, null]

theorem handlesRight_iff (defined : state.undefined = false) :
    HandlesRight state delivery ↔ (∃ id, Hits state delivery id) ∨
      (state.listFor delivery = [] ∧ state.callbackNode = .null) := by
  unfold HandlesRight
  rcases search_cases state delivery with faulted | hit | missed
  · obtain ⟨same, noEnd⟩ := faulted
    have flag : (state.search delivery).undefined = true := by
      rw [same]
      rfl
    constructor
    · intro right
      split at right
      · rw [right.1] at flag
        contradiction
      · obtain ⟨⟨callbackNode, unchanged⟩, _⟩ := right
        rw [unchanged, defined] at flag
        contradiction
    · intro found
      rcases found with hit | empty
      · exact absurd (.hit hit.choose_spec) (noEnd _)
      · have nothing : ∀ id ∈ state.listFor delivery, (state.cmdIdOf id).isSome := by
          rw [empty.1]
          exact fun _ member => by contradiction
        rw [search_misses nothing (by rw [empty.1]; rfl)] at flag
        exact absurd defined (by rw [show state.undefined = true from flag]; decide)
  · obtain ⟨id, hits, same⟩ := hit
    rw [hits.1.firstWith, same]
    exact iff_of_true ⟨defined, rfl, rfl, rfl⟩ (.inl ⟨id, hits⟩)
  · obtain ⟨live, missed, same⟩ := missed
    rw [missed]
    simp only [dispatch_nothing_iff, same]
    constructor
    · intro right
      obtain ⟨_, null⟩ := right
      unfold afterMiss at null
      cases last : (state.listFor delivery).getLast? with
      | none =>
          rw [last] at null
          exact .inr ⟨List.getLast?_eq_none_iff.mp last, null⟩
      | some id =>
          rw [last] at null
          contradiction
    · intro found
      rcases found with hit | empty
      · obtain ⟨id, hits⟩ := hit
        rw [hits.1.firstWith] at missed
        contradiction
      · refine ⟨⟨_, rfl⟩, ?_⟩
        rw [afterMiss, empty.1, empty.2]
        rfl

/-- In every run, whatever is received is dispatched to a matching node or to none, exactly
when every message finds its node, or finds an empty list and an unused `NULL` variable. -/
theorem right_iff_found (isNull : Bool) (events : List Event) :
    Run.Always step Right (initial isNull) events ↔ Run.Always step Found (initial isNull) events := by
  have pointwise : ∀ state, Right state ↔ Found state := by
    intro state
    apply forall_congr'
    intro delivery
    apply forall_congr'
    intro searching
    exact handlesRight_iff searching.1
  constructor
  · intro always earlier middle before reached
    exact (pointwise middle).mp (always earlier middle before reached)
  · intro always earlier middle before reached
    exact (pointwise middle).mpr (always earlier middle before reached)

/-- `IPC_CMD_REQUEST_INIT` waits for its answer when the one to `IPC_CMD_REQUEST_OPEN` arrives,
before the node of that request is linked. -/
private def earlyReply : List Event :=
  [.begin .request cmdRequestInit none, .send 0, .link 0, .wait 0,
    .begin .request cmdRequestOpen none, .send 1, .receive ⟨cmdRequestOpen ||| cmdRespond, 1⟩]

/-- No node has the id, and the waiting caller is passed on. -/
theorem early_reply_passed_to_other : ¬ Run.Always step Right (initial true) earlyReply := by
  intro always
  have outcome : (Run.run step (initial true) earlyReply).map (fun state =>
      let delivery := ⟨cmdRequestOpen ||| cmdRespond, 1⟩
      (state.undefined, state.receiver == .received delivery,
        firstWith state.cmdIdOf delivery.searched (state.listFor delivery),
        (state.search delivery).callbackNode)) = some (false, true, none, .node 0) := by
    decide +kernel
  obtain ⟨state, reached, facts⟩ := Option.map_eq_some_iff.mp outcome
  simp only [Prod.mk.injEq, beq_iff_eq] at facts
  obtain ⟨defined, received, missed, passed⟩ := facts
  have right := always _ state (List.prefix_refl _) reached _ ⟨defined, received, by decide⟩
  rw [HandlesRight, missed] at right
  have null := dispatch_nothing_iff.mp right.2
  rw [passed] at null
  contradiction

end Search

end Dwadelib.Ipc.Client
