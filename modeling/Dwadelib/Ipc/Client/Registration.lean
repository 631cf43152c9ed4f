import Dwadelib.Ipc.Client.Access

namespace Dwadelib.Ipc.Client

/-! # Registrations and the messages pushed to them

`process_async_call` ends with `free`, for the node of an asynchronous request as for that of
a registration, which stays in `register_callback_list`.
-/

/-- The client with the registrations made. `registered` are those whose call returned 0,
`active` those not unregistered since; `expected` lists the messages that each of them has to
be given, `awaited` the ones that wait for the message in hand. -/
structure Registry where
  client : State
  registered : List Nat
  active : List Nat
  expected : List Handed
  awaited : List Nat
deriving DecidableEq, Repr

inductive RegistryEvent where
  | client (event : Event)
  | unregister (cmdId : UInt32)
deriving DecidableEq, Repr

/-- Registers a callback; `NULL` is none. -/
def Call.registers (call : Call) : Bool := call.kind = .register && call.callback.isSome

def Receiver.carries : Receiver → Option Delivery
  | .idle => none
  | .received delivery | .searched delivery => some delivery

namespace Registry

def start (isNull : Bool) : Registry where
  client := initial isNull
  registered := []
  active := []
  expected := []
  awaited := []

def isFor (registry : Registry) (cmdId : UInt32) (id : Nat) : Bool :=
  registry.client.calls[id]?.map Call.cmdId = some cmdId

/-- A pushed message has to be given to every registration of its id. -/
def expect (registry : Registry) (delivery : Delivery) : Registry :=
  let awaited := registry.active.filter (registry.isFor delivery.cmdId)
  { registry with
    awaited
    expected := registry.expected ++ awaited.map fun id => { id, delivery } }

/-- What a step means for the registrations. -/
def note (registry : Registry) (event : Event) (client : State) : Registry :=
  match event with
  | .link id =>
      if !client.undefined && (registry.client.calls[id]?).any Call.registers then
        { registry with
          client
          registered := registry.registered ++ [id]
          active := registry.active ++ [id] }
      else { registry with client }
  | .receive delivery =>
      if !delivery.isRespond && delivery.isUnsolicited then { registry.expect delivery with client }
      else { registry with client, awaited := [] }
  | _ => { registry with client }

def step (registry : Registry) : RegistryEvent → Option Registry
  | .client event => (Client.step registry.client event).map (registry.note event)
  | .unregister cmdId => some { registry with
      client := registry.client.ipcClientUnregisterCallback cmdId
      active := registry.active.filter fun id => !registry.isFor cmdId id }

end Registry

/-- The messages of a list that are for this registration, in order. -/
def messagesOf (id : Nat) (list : List Handed) : List Handed := list.filter fun handed => handed.id = id

/-- Nothing undefined has been done, the registered nodes are linked and not freed, and every
callback has been given the messages that were received for it, in order and no other ones. -/
structure Serves (registry : Registry) : Prop where
  defined : registry.client.undefined = false
  linked : ∀ id ∈ registry.active,
    id ∈ registry.client.registerCallbackList ∧ (registry.client.cmdIdOf id).isSome
  invoked : registry.client.receiver = .idle → ∀ id ∈ registry.registered,
    messagesOf id registry.client.handed = messagesOf id registry.expected

/-- What the receiver passes on is no registered node, except for a message received for it alone
and after the registration was given up. -/
def AwaitedAlone (registry : Registry) : Event → Prop
  | .dispatch =>
      match registry.client.callbackNode with
      | .node id =>
          if id ∈ registry.registered then id ∉ registry.active ∧ registry.awaited = [id]
          else registry.awaited = []
      | _ => registry.awaited = []
  | _ => True

/-- A step touches no freed node and passes only what is awaited. -/
def PassesAwaited (registry : Registry) : RegistryEvent → Prop
  | .client event => OnLive registry.client event ∧ AwaitedAlone registry event
  | .unregister _ => True

structure Registry.Sound (registry : Registry) : Prop where
  client : Client.Sound registry.client
  registered : ∀ id ∈ registry.registered, ∃ call, registry.client.calls[id]? = some call ∧
    call.registers = true ∧ call.phase.early = false
  nodup : registry.registered.Nodup
  active : registry.active.Sublist registry.registered
  awaited : registry.awaited.Sublist registry.registered
  expected : ∀ handed ∈ registry.expected, handed.id ∈ registry.registered
  /-- While a message is in hand, it is all that is still to be given. -/
  books : ∀ delivery, registry.client.receiver.carries = some delivery →
    ∀ id ∈ registry.registered, messagesOf id registry.expected =
      messagesOf id registry.client.handed ++ if id ∈ registry.awaited then [⟨id, delivery⟩] else []
  pushed : ∀ delivery, registry.client.receiver.carries = some delivery → registry.awaited ≠ [] →
    delivery.isUnsolicited = true

section Messages

variable {list more : List Handed} {ids : List Nat} {id other : Nat} {delivery : Delivery}

@[simp] theorem messagesOf_append :
    messagesOf id (list ++ more) = messagesOf id list ++ messagesOf id more := by
  simp [messagesOf]

@[simp] theorem messagesOf_same : messagesOf id [⟨id, delivery⟩] = [⟨id, delivery⟩] := by
  simp [messagesOf]

theorem messagesOf_other (different : other ≠ id) : messagesOf id [⟨other, delivery⟩] = [] := by
  simp [messagesOf, different]

theorem messagesOf_eq_nil (absent : ∀ handed ∈ list, handed.id ≠ id) : messagesOf id list = [] := by
  rw [messagesOf, List.filter_eq_nil_iff]
  intro handed member
  simpa using absent handed member

theorem messagesOf_map (nodup : ids.Nodup) :
    messagesOf id (ids.map fun id => ⟨id, delivery⟩) = if id ∈ ids then [⟨id, delivery⟩] else [] := by
  induction ids with
  | nil => rfl
  | cons head rest ih =>
      obtain ⟨absent, others⟩ := List.nodup_cons.mp nodup
      rw [List.map_cons, ← List.singleton_append, messagesOf_append, ih others]
      by_cases same : head = id
      · subst same
        simp [absent]
      · rw [messagesOf_other same]
        simp [Ne.symm same]

end Messages

section Registration

variable {registry after : Registry} {state client : State} {event : Event} {id : Nat} {call : Call}
  {phase : Phase} {delivery : Delivery}

theorem serves_start (isNull : Bool) : Serves (Registry.start isNull) where
  defined := rfl
  linked := fun _ member => by contradiction
  invoked := fun _ _ member => by contradiction

theorem sound_registry_start (isNull : Bool) : (Registry.start isNull).Sound where
  client := sound_initial isNull
  registered := fun _ member => by contradiction
  nodup := List.nodup_nil
  active := List.Sublist.refl []
  awaited := List.Sublist.refl []
  expected := fun _ member => by contradiction
  books := fun _ carried => by contradiction
  pushed := fun _ carried => by contradiction

theorem Registry.Sound.returned (sound : registry.Sound) (member : id ∈ registry.registered) :
    ∃ call, registry.client.calls[id]? = some call ∧ call.registers = true ∧
      ∃ status, call.phase = .returned status := by
  obtain ⟨call, known, registers, late⟩ := sound.registered id member
  have kind : call.kind = .register := of_decide_eq_true (Bool.and_eq_true_iff.mp registers).1
  rcases (sound.client.callAt known).waits (.inl kind) with early | returned
  · rw [late] at early
    contradiction
  · exact ⟨call, known, registers, returned⟩

theorem Serves.frame (serves : Serves registry) (defined : client.undefined = false)
    (lists : ∀ id ∈ registry.client.registerCallbackList, id ∈ client.registerCallbackList)
    (live : ∀ id ∈ registry.active, client.cmdIdOf id = registry.client.cmdIdOf id)
    (handed : client.handed = registry.client.handed)
    (idle : client.receiver = .idle → registry.client.receiver = .idle) :
    Serves { registry with client } where
  defined := defined
  linked := by
    intro id member
    obtain ⟨inside, known⟩ := serves.linked id member
    exact ⟨lists id inside, (live id member).symm ▸ known⟩
  invoked := by
    intro here id member
    rw [← serves.invoked (idle here) id member]
    exact congrArg (messagesOf id) handed

theorem serves_retire (sound : registry.Sound) (serves : Serves registry)
    (known : registry.client.calls[id]? = some call) (retires : Retire id call event) :
    Serves { registry with
      client := registry.client.setCall id { call with phase := .returned 1, live := false } } := by
  refine serves.frame serves.defined (fun _ inside => inside) ?_ rfl fun here => here
  intro other member
  obtain ⟨found, there, _, status, returned⟩ := sound.returned (sound.active.subset member)
  have different : other ≠ id := by
    intro same
    subst same
    cases known.symm.trans there
    cases retires with
    | fail here =>
        rw [here] at returned
        contradiction
    | timeout here live =>
        rw [here] at returned
        contradiction
  exact cmdIdOf_congr ((getElem?_setCall known _).trans (if_neg different))

theorem Registry.note_link (known : registry.client.calls[id]? = some call)
    (defined : client.undefined = registry.client.undefined) :
    registry.note (.link id) client =
      if registry.client.undefined = false ∧ call.registers = true then
        { registry with
          client, registered := registry.registered ++ [id], active := registry.active ++ [id] }
      else { registry with client } := by
  simp only [Registry.note, known, Option.any_some, defined, Bool.and_eq_true, Bool.not_eq_true']

theorem cmdIdOf_linked (known : state.calls[id]? = some call) (other : Nat) :
    (state.linked id call).cmdIdOf other = state.cmdIdOf other := by
  apply cmdIdOf_setCall known
  · rfl
  · rfl

theorem registers_linked (id : Nat) (call : Call) :
    ∀ other ∈ state.registerCallbackList, other ∈ (state.linked id call).registerCallbackList := by
  intro other inside
  simp only [State.linked]
  split
  · exact List.mem_append_left _ inside
  · exact inside

/-- Before its node is linked a registration has been given nothing. -/
theorem Registry.Sound.nothing (sound : registry.Sound)
    (known : registry.client.calls[id]? = some call) (early : call.phase.early = true) :
    id ∉ registry.registered ∧ messagesOf id registry.client.handed = [] ∧
      messagesOf id registry.expected = [] := by
  have absent : id ∉ registry.registered := by
    intro member
    obtain ⟨found, there, _, late⟩ := sound.registered id member
    cases known.symm.trans there
    rw [early] at late
    contradiction
  have ungiven : messagesOf id registry.client.handed = [] := by
    apply messagesOf_eq_nil
    intro given member same
    obtain ⟨kind, found, there, _, late⟩ := sound.client.handed given member
    rw [same] at there
    cases known.symm.trans there
    rw [early] at late
    contradiction
  have unexpected : messagesOf id registry.expected = [] := by
    apply messagesOf_eq_nil
    intro given member same
    exact absent (same ▸ sound.expected given member)
  exact ⟨absent, ungiven, unexpected⟩

theorem serves_link (sound : registry.Sound) (serves : Serves registry)
    (known : registry.client.calls[id]? = some call) (here : call.phase = .sent) :
    Serves (registry.note (.link id) (registry.client.linked id call)) := by
  have early : call.phase.early = true := by
    rw [here]
    rfl
  have kept : ∀ other ∈ registry.client.registerCallbackList,
      other ∈ (registry.client.linked id call).registerCallbackList := registers_linked id call
  rw [Registry.note_link known (show (registry.client.linked id call).undefined = _ from rfl)]
  split
  · rename_i entered
    have register : call.kind = .register := of_decide_eq_true (Bool.and_eq_true_iff.mp entered.2).1
    exact {
      defined := serves.defined
      linked := by
        intro other member
        simp only [cmdIdOf_linked known]
        rcases List.mem_append.mp member with old | new
        · exact ⟨kept other (serves.linked other old).1, (serves.linked other old).2⟩
        · cases List.mem_singleton.mp new
          refine ⟨by simp [State.linked, register], ?_⟩
          simp [State.cmdIdOf, known, (sound.client.callAt known).fresh early]
      invoked := by
        intro idle other member
        rcases List.mem_append.mp member with old | new
        · exact serves.invoked idle other old
        · cases List.mem_singleton.mp new
          obtain ⟨_, given, expected⟩ := sound.nothing known early
          exact given.trans expected.symm }
  · exact serves.frame serves.defined kept (fun other _ => cmdIdOf_linked known other) rfl fun idle => idle

/-- With nothing passed on, the books are right exactly when nothing was awaited. -/
theorem invoked_iff_nothing_awaited (sound : registry.Sound)
    (carried : registry.client.receiver.carries = some delivery) {handed : List Handed}
    (same : ∀ id ∈ registry.registered, messagesOf id handed = messagesOf id registry.client.handed) :
    (∀ id ∈ registry.registered, messagesOf id handed = messagesOf id registry.expected) ↔
      registry.awaited = [] := by
  constructor
  · intro right
    rw [List.eq_nil_iff_forall_not_mem]
    intro id member
    have registered := sound.awaited.subset member
    have books := sound.books delivery carried id registered
    rw [← right id registered, same id registered, if_pos member] at books
    simpa using congrArg List.length books
  · intro nothing id registered
    rw [sound.books delivery carried id registered, same id registered, nothing]
    simp

theorem eq_singleton_of_nodup {list : List Nat} (nodup : list.Nodup) (member : id ∈ list)
    (only : ∀ other ∈ list, other = id) : list = [id] := by
  cases list with
  | nil => contradiction
  | cons head rest =>
      cases only head List.mem_cons_self
      cases rest with
      | nil => rfl
      | cons second others =>
          cases only second (List.mem_cons_of_mem _ List.mem_cons_self)
          simp at nodup

/-- With the message given to one registration, the books are right exactly when this one
alone awaited it. -/
theorem invoked_iff_awaited_alone (sound : registry.Sound)
    (carried : registry.client.receiver.carries = some delivery) (registered : id ∈ registry.registered) :
    (∀ other ∈ registry.registered,
      messagesOf other (registry.client.handed ++ [⟨id, delivery⟩]) = messagesOf other registry.expected) ↔
      registry.awaited = [id] := by
  constructor
  · intro right
    have awaits : id ∈ registry.awaited := by
      by_contra absent
      have books := sound.books delivery carried id registered
      rw [← right id registered, messagesOf_append, messagesOf_same, if_neg absent] at books
      simpa using congrArg List.length books
    apply eq_singleton_of_nodup (sound.nodup.sublist sound.awaited) awaits
    intro other member
    by_contra different
    have inside := sound.awaited.subset member
    have books := sound.books delivery carried other inside
    rw [← right other inside, messagesOf_append, messagesOf_other (Ne.symm different), if_pos member]
      at books
    simpa using congrArg List.length books
  · intro alone other inside
    rw [sound.books delivery carried other inside, messagesOf_append, alone]
    by_cases same : other = id
    · subst same
      simp
    · rw [messagesOf_other (Ne.symm same)]
      simp [same]

/-- A node with a callback is freed by passing it on. -/
theorem cmdIdOf_passed_callback (known : state.calls[id]? = some call) (callback : call.callback.isSome) :
    (state.passed id call delivery).cmdIdOf id = none := by
  have asynchronous : ¬ (delivery.isRespond && call.callback.isNone) = true := by
    simp only [Bool.and_eq_true, Option.isNone_iff_eq_none, not_and]
    intro _ none_
    rw [none_] at callback
    contradiction
  simp [State.cmdIdOf, passed_freed known asynchronous]

theorem serves_pass (sound : registry.Sound) (serves : Serves registry)
    (searched : registry.client.receiver = .searched delivery)
    (pointed : registry.client.callbackNode = .node id)
    (known : registry.client.calls[id]? = some call)
    (defined : (registry.client.passed id call delivery).undefined = false) :
    Serves { registry with client := registry.client.passed id call delivery } ↔
      AwaitedAlone registry .dispatch := by
  have carried : registry.client.receiver.carries = some delivery := by rw [searched]; rfl
  obtain ⟨_, registers, _, idle⟩ := passed_lists registry.client id call delivery
  simp only [AwaitedAlone, pointed]
  split
  · rename_i registered
    obtain ⟨found, there, registers_, _⟩ := sound.registered id registered
    cases known.symm.trans there
    have callback := (Bool.and_eq_true_iff.mp registers_).2
    have handed : (registry.client.passed id call delivery).handed =
        registry.client.handed ++ [⟨id, delivery⟩] := by
      rw [passed_handed, if_pos (by rw [callback, Bool.or_true])]
    constructor
    · intro serves
      constructor
      · intro active
        have known := (serves.linked id active).2
        rw [cmdIdOf_passed_callback there callback] at known
        contradiction
      · exact (invoked_iff_awaited_alone sound carried registered).mp
          (handed ▸ serves.invoked idle)
    · intro both
      obtain ⟨inactive, alone⟩ := both
      refine ⟨defined, ?_, ?_⟩
      · intro other active
        have different : other ≠ id := fun same => inactive (same ▸ active)
        rw [registers, cmdIdOf_congr (passed_other call delivery different)]
        exact serves.linked other active
      · intro _
        rw [handed]
        exact (invoked_iff_awaited_alone sound carried registered).mpr alone
  · rename_i elsewhere
    have same : ∀ other ∈ registry.registered,
        messagesOf other (registry.client.passed id call delivery).handed =
          messagesOf other registry.client.handed := by
      intro other member
      rw [passed_handed]
      split
      · have different : id ≠ other := fun equal => elsewhere (equal ▸ member)
        rw [messagesOf_append, messagesOf_other different, List.append_nil]
      · rfl
    constructor
    · intro serves
      exact (invoked_iff_nothing_awaited sound carried same).mp (serves.invoked idle)
    · intro nothing
      refine ⟨defined, ?_, ?_⟩
      · intro other active
        have different : other ≠ id :=
          fun equal => elsewhere (sound.active.subset (equal ▸ active))
        rw [registers, cmdIdOf_congr (passed_other call delivery different)]
        exact serves.linked other active
      · exact fun _ => (invoked_iff_nothing_awaited sound carried same).mpr nothing

theorem Registry.note_client (registry : Registry) (event : Event) (client : State) :
    (registry.note event client).client = client := by
  cases event with
  | link id =>
      rw [Registry.note]
      split <;> rfl
  | receive delivery =>
      rw [Registry.note]
      split <;> rfl
  | _ => rfl

theorem Registry.note_advance (advances : Advance id call event phase) (client : State) :
    registry.note event client = { registry with client } := by
  cases advances <;> rfl

theorem Registry.note_retire (retires : Retire id call event) (client : State) :
    registry.note event client = { registry with client } := by
  cases retires <;> rfl

theorem Registry.note_fault (faults : Faults state event) :
    registry.note event state.fault = { registry with client := state.fault } := by
  cases faults with
  | link id => rfl
  | caller known late freed event_ => rcases event_ with rfl | rfl | rfl <;> rfl
  | search received noEnd => rfl
  | dispatch searched used freed => rfl

/-- A defined step of the client keeps the law exactly when it passes no other node on. -/
theorem serves_moves (sound : registry.Sound) (serves : Serves registry)
    (moves : Moves registry.client event client) (defined : client.undefined = false) :
    Serves (registry.note event client) ↔ AwaitedAlone registry event := by
  cases moves with
  | begin kind cmdId callback =>
      apply iff_of_true _ trivial
      refine serves.frame defined (fun _ inside => inside) ?_ rfl fun idle => idle
      intro id member
      obtain ⟨call, known, _⟩ := sound.registered id (sound.active.subset member)
      exact cmdIdOf_congr (List.getElem?_append_left (List.getElem?_eq_some_iff.mp known).1)
  | @advance id call event phase known advances =>
      rw [Registry.note_advance advances]
      apply iff_of_true
      · refine serves.frame defined (fun _ inside => inside) ?_ rfl fun idle => idle
        intro other _
        exact cmdIdOf_setCall known (show { call with phase }.cmdId = call.cmdId from rfl) rfl
      · cases advances <;> trivial
  | retire known retires =>
      rw [Registry.note_retire retires]
      apply iff_of_true (serves_retire sound serves known retires)
      cases retires <;> trivial
  | link known here => exact iff_of_true (serves_link sound serves known here) trivial
  | receive delivery idle =>
      apply iff_of_true _ trivial
      simp only [Registry.note, Registry.expect]
      split <;> exact ⟨defined, serves.linked, fun idle => by contradiction⟩
  | @ignore delivery received neither =>
      have carried : registry.client.receiver.carries = some delivery := by rw [received]; rfl
      have nothing : registry.awaited = [] := by
        by_contra awaited
        rw [sound.pushed delivery carried awaited, Bool.or_true] at neither
        contradiction
      have invoked := (invoked_iff_nothing_awaited sound carried fun _ _ => rfl).mpr nothing
      exact iff_of_true ⟨defined, serves.linked, fun _ => invoked⟩ trivial
  | hit received either hits =>
      apply iff_of_true _ trivial
      exact serves.frame defined (fun _ inside => inside) (fun _ _ => rfl) rfl fun idle => by contradiction
  | miss received either live missed =>
      apply iff_of_true _ trivial
      exact serves.frame defined (fun _ inside => inside) (fun _ _ => rfl) rfl fun idle => by contradiction
  | @skip delivery searched null =>
      have carried : registry.client.receiver.carries = some delivery := by rw [searched]; rfl
      have nothing := invoked_iff_nothing_awaited sound carried fun _ _ => rfl
      simp only [AwaitedAlone, null]
      constructor
      · intro served
        exact nothing.mp (served.invoked rfl)
      · intro empty
        exact ⟨defined, serves.linked, fun _ => nothing.mpr empty⟩
  | pass searched pointed known live => exact serves_pass sound serves searched pointed known defined
  | fault faults => contradiction

theorem Registry.Sound.kept (sound : registry.Sound) (moves : Moves registry.client event client) :
    ∀ id ∈ registry.registered, ∃ call, client.calls[id]? = some call ∧
      call.registers = true ∧ call.phase.early = false := by
  intro id member
  obtain ⟨call, known, registers, late⟩ := sound.registered id member
  obtain ⟨after, found, later⟩ := moves.calls.keeps known
  refine ⟨after, found, ?_, later.late late⟩
  rw [← registers, Call.registers, Call.registers, later.kind, later.callback]

theorem Registry.Sound.frame (sound : registry.Sound) (moves : Moves registry.client event client)
    (carried : ∀ delivery, client.receiver.carries = some delivery →
      registry.client.receiver.carries = some delivery ∧ client.handed = registry.client.handed) :
    Registry.Sound { registry with client } where
  client := sound_moves sound.client moves
  registered := sound.kept moves
  nodup := sound.nodup
  active := sound.active
  awaited := sound.awaited
  expected := sound.expected
  books := by
    intro delivery carries id member
    obtain ⟨before, same⟩ := carried delivery carries
    rw [sound.books delivery before id member]
    exact congrArg (fun handed => messagesOf id handed ++ _) same.symm
  pushed := fun delivery carries => sound.pushed delivery (carried delivery carries).1

theorem sound_receive (sound : registry.Sound) (serves : Serves registry)
    (idle : registry.client.receiver = .idle) :
    (registry.note (.receive delivery) { registry.client with receiver := .received delivery }).Sound := by
  have moves := Moves.receive delivery idle
  have client := sound_moves sound.client moves
  simp only [Registry.note, Registry.expect]
  split
  · rename_i pushed
    have within : (registry.active.filter (registry.isFor delivery.cmdId)).Sublist registry.registered :=
      List.filter_sublist.trans sound.active
    exact {
      client
      registered := sound.kept moves
      nodup := sound.nodup
      active := sound.active
      awaited := within
      expected := by
        intro handed member
        rcases List.mem_append.mp member with old | new
        · exact sound.expected handed old
        · obtain ⟨id, awaits, rfl⟩ := List.mem_map.mp new
          exact within.subset awaits
      books := by
        intro message carries id member
        cases carries
        rw [messagesOf_append, messagesOf_map (sound.nodup.sublist within),
          ← serves.invoked idle id member]
      pushed := by
        intro message carries _
        cases carries
        exact (Bool.and_eq_true_iff.mp pushed).2 }
  · exact {
      client
      registered := sound.kept moves
      nodup := sound.nodup
      active := sound.active
      awaited := List.nil_sublist _
      expected := sound.expected
      books := by
        intro message carries id member
        rw [← serves.invoked idle id member]
        simp
      pushed := fun message carries awaited => absurd rfl awaited }

theorem sound_registry_link (sound : registry.Sound)
    (known : registry.client.calls[id]? = some call) (here : call.phase = .sent) :
    (registry.note (.link id) (registry.client.linked id call)).Sound := by
  have early : call.phase.early = true := by rw [here]; rfl
  have moves := Moves.link known here
  obtain ⟨absent, given, expected⟩ := sound.nothing known early
  rw [Registry.note_link known (show (registry.client.linked id call).undefined = _ from rfl)]
  split
  · rename_i entered
    have grown : registry.registered.Sublist (registry.registered ++ [id]) := List.sublist_append_left _ _
    have framed := sound.frame moves fun _ carries => ⟨carries, rfl⟩
    exact {
      client := framed.client
      registered := by
        intro other member
        rcases List.mem_append.mp member with old | new
        · exact framed.registered other old
        · cases List.mem_singleton.mp new
          exact ⟨{ call with phase := call.afterLink }, (getElem?_setCall known _).trans (if_pos rfl),
            entered.2, Call.afterLink_late call⟩
      nodup := by
        apply List.nodup_append.mpr
        refine ⟨sound.nodup, List.nodup_singleton id, ?_⟩
        intro other member last new same
        cases List.mem_singleton.mp new
        exact absent (same ▸ member)
      active := sound.active.append (List.Sublist.refl [id])
      awaited := sound.awaited.trans grown
      expected := fun handed member => grown.subset (sound.expected handed member)
      books := by
        intro delivery carries other member
        rcases List.mem_append.mp member with old | new
        · exact framed.books delivery carries other old
        · cases List.mem_singleton.mp new
          have unawaited : id ∉ registry.awaited := fun awaits => absent (sound.awaited.subset awaits)
          rw [if_neg unawaited, List.append_nil]
          exact expected.trans given.symm
      pushed := framed.pushed }
  · exact sound.frame moves fun _ carries => ⟨carries, rfl⟩

theorem sound_note (sound : registry.Sound) (serves : Serves registry)
    (moves : Moves registry.client event client) : (registry.note event client).Sound := by
  have step := moves
  cases moves with
  | begin kind cmdId callback => exact sound.frame step fun _ carries => ⟨carries, rfl⟩
  | advance known advances =>
      rw [Registry.note_advance advances]
      exact sound.frame step fun _ carries => ⟨carries, rfl⟩
  | retire known retires =>
      rw [Registry.note_retire retires]
      exact sound.frame step fun _ carries => ⟨carries, rfl⟩
  | link known here => exact sound_registry_link sound known here
  | receive delivery idle => exact sound_receive sound serves idle
  | ignore received neither => exact sound.frame step fun _ carries => by contradiction
  | hit received either hits =>
      refine sound.frame step fun _ carries => ⟨?_, rfl⟩
      rw [received]
      exact carries
  | miss received either live missed =>
      refine sound.frame step fun _ carries => ⟨?_, rfl⟩
      rw [received]
      exact carries
  | skip searched null => exact sound.frame step fun _ carries => by contradiction
  | pass searched pointed known live =>
      apply sound.frame step
      intro _ carries
      rw [(passed_lists registry.client _ _ _).2.2.2] at carries
      contradiction
  | fault faults =>
      rw [Registry.note_fault faults]
      exact sound.frame step fun _ carries => ⟨carries, rfl⟩

theorem serves_unregister (serves : Serves registry) (keep : Nat → Bool) :
    Serves { registry with active := registry.active.filter keep } :=
  ⟨serves.defined, fun id member => serves.linked id (List.mem_of_mem_filter member), serves.invoked⟩

theorem sound_unregister (sound : registry.Sound) (keep : Nat → Bool) :
    Registry.Sound { registry with active := registry.active.filter keep } :=
  { sound with active := List.filter_sublist.trans sound.active }

/-- The step rule for a step of the client, defined or not. -/
theorem serves_step (sound : registry.Sound) (serves : Serves registry)
    (moved : Client.step registry.client event = some client) :
    Serves (registry.note event client) ↔ PassesAwaited registry (.client event) := by
  have defined := defined_iff_onLive moved
  cases undefined : client.undefined with
  | false =>
      have live := defined.mp undefined
      exact (serves_moves sound serves (moves_of_step moved) undefined).trans
        ⟨fun alone => ⟨live, alone⟩, fun both => both.2⟩
  | true =>
      refine iff_of_false ?_ ?_
      · intro served
        have kept := served.defined
        rw [Registry.note_client, undefined] at kept
        contradiction
      · intro both
        have kept := defined.mpr both.1
        rw [undefined] at kept
        contradiction

/-- In every run the registrations are served exactly when no step touches a freed node and the
receiver never passes a registered node on, apart from the last message of one that is being given
up. -/
theorem serves_iff_passesAwaited (isNull : Bool) (events : List RegistryEvent) :
    Run.Always Registry.step Serves (Registry.start isNull) events ↔
      Run.Along Registry.step PassesAwaited (Registry.start isNull) events := by
  have stepRule : ∀ registry event next, Registry.Sound registry → Serves registry →
      registry.step event = some next → (Serves next ↔ PassesAwaited registry event) ∧ next.Sound := by
    intro registry event next sound serves taken
    cases event with
    | client event =>
        obtain ⟨client, moved, rfl⟩ := Option.map_eq_some_iff.mp taken
        exact ⟨serves_step sound serves moved, sound_note sound serves (moves_of_step moved)⟩
    | unregister cmdId =>
        cases taken
        exact ⟨iff_of_true (serves_unregister serves _) trivial, sound_unregister sound _⟩
  apply Run.always_iff_along _ _ (sound_registry_start isNull) (serves_start isNull)
  · intro registry event next sound serves taken
    exact (stepRule registry event next sound serves taken).1
  · intro registry event next sound serves _ taken
    exact (stepRule registry event next sound serves taken).2

/-- A registration and one message for it. -/
private def firstPush : List RegistryEvent :=
  let cmdId := cmdInitUnsolicite
  [.client (.begin .register cmdId (some 0)), .client (.send 0), .client (.link 0),
    .client (.receive ⟨cmdId, 0⟩), .client .search, .client .dispatch]

/-- The first message frees the registered node. -/
theorem first_push_frees_registration :
    ¬ Run.Always Registry.step Serves (Registry.start true) firstPush := by
  intro always
  have outcome : (Run.run Registry.step (Registry.start true) firstPush).map (fun registry =>
      (registry.active, registry.client.cmdIdOf 0)) = some ([0], none) := by
    decide +kernel
  obtain ⟨final, reached, facts⟩ := Option.map_eq_some_iff.mp outcome
  simp only [Prod.mk.injEq] at facts
  have live := ((always _ final (List.prefix_refl _) reached).linked 0 (by rw [facts.1]; simp)).2
  rw [facts.2] at live
  contradiction

end Registration

end Dwadelib.Ipc.Client
