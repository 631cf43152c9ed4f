import Dwadelib.Ipc.Client.Search

namespace Dwadelib.Ipc.Client

/-! # What a step of the client can do

`Moves` names every outcome of a step with what was checked on the way; invariants are
proved over it. `Sound` is the invariant of all runs.
-/

/-- The phases before the node is linked. -/
def Phase.early : Phase → Bool
  | .started | .sent => true
  | _ => false

/-- The steps in which a caller only moves on. -/
inductive Advance (id : Nat) (call : Call) : Event → Phase → Prop
  | send (here : call.phase = .started) : Advance id call (.send id) .sent
  | wait (here : call.phase = .linked) (live : call.live = true) : Advance id call (.wait id) .waiting
  | spurious (here : call.phase = .waiting) : Advance id call (.spurious id) .woken
  | finish (here : call.phase = .woken) (live : call.live = true) :
      Advance id call (.finish id) (.returned 0)

/-- The steps in which a caller frees its node and returns 1. -/
inductive Retire (id : Nat) (call : Call) : Event → Prop
  | fail (here : call.phase = .started) : Retire id call (.fail id)
  | timeout (here : call.phase = .waiting) (live : call.live = true) : Retire id call (.timeout id)

/-- The undefined accesses of a step. -/
inductive Faults (state : State) : Event → Prop
  | link (id : Nat) : Faults state (.link id)
  | caller {id : Nat} {call : Call} {event : Event} (known : state.calls[id]? = some call)
      (late : call.phase.early = false) (freed : call.live = false)
      (event_ : event = .wait id ∨ event = .timeout id ∨ event = .finish id) : Faults state event
  | search {delivery : Delivery} (received : state.receiver = .received delivery)
      (noEnd : ∀ pointer, ¬ EndsAt state delivery pointer) : Faults state .search
  | dispatch {delivery : Delivery} (searched : state.receiver = .searched delivery)
      (used : state.callbackNode ≠ .null)
      (freed : ∀ id, state.callbackNode = .node id → state.cmdIdOf id = none) :
      Faults state .dispatch

/-- The phase of a call whose node has just been linked. -/
def Call.afterLink (call : Call) : Phase :=
  if call.kind = .register ∨ call.callback.isSome then .returned 0 else .linked

/-- The lists after a node was linked in the list of its kind. -/
def State.linked (state : State) (id : Nat) (call : Call) : State :=
  { state.setCall id { call with phase := call.afterLink } with
    responseCallbackList :=
      if call.kind = .request then state.responseCallbackList ++ [id] else state.responseCallbackList
    registerCallbackList :=
      if call.kind = .register then state.registerCallbackList ++ [id] else state.registerCallbackList }

/-- The state after `process_sync_call` or `process_async_call`. -/
def State.passed (state : State) (id : Nat) (call : Call) (delivery : Delivery) : State :=
  if delivery.isRespond && call.callback.isNone then state.processSyncCall id call delivery
  else state.processAsyncCall id call delivery

inductive Moves (state : State) : Event → State → Prop
  | begin (kind : Kind) (cmdId : UInt32) (callback : Option Nat) :
      Moves state (.begin kind cmdId callback) { state with
        calls := state.calls ++ [{ kind, cmdId, callback, phase := .started, live := true }] }
  | advance {id : Nat} {call : Call} {event : Event} {phase : Phase}
      (known : state.calls[id]? = some call) (advances : Advance id call event phase) :
      Moves state event (state.setCall id { call with phase })
  | retire {id : Nat} {call : Call} {event : Event} (known : state.calls[id]? = some call)
      (retires : Retire id call event) :
      Moves state event (state.setCall id { call with phase := .returned 1, live := false })
  | link {id : Nat} {call : Call} (known : state.calls[id]? = some call) (here : call.phase = .sent) :
      Moves state (.link id) (state.linked id call)
  | receive (delivery : Delivery) (idle : state.receiver = .idle) :
      Moves state (.receive delivery) { state with receiver := .received delivery }
  | ignore {delivery : Delivery} (received : state.receiver = .received delivery)
      (neither : (delivery.isRespond || delivery.isUnsolicited) = false) :
      Moves state .search { state with receiver := .idle }
  | hit {delivery : Delivery} {id : Nat} (received : state.receiver = .received delivery)
      (either : (delivery.isRespond || delivery.isUnsolicited) = true)
      (hits : Hits state delivery id) : Moves state .search (afterHit state delivery id)
  | miss {delivery : Delivery} (received : state.receiver = .received delivery)
      (either : (delivery.isRespond || delivery.isUnsolicited) = true)
      (live : ∀ id ∈ state.listFor delivery, (state.cmdIdOf id).isSome)
      (missed : firstWith state.cmdIdOf delivery.searched (state.listFor delivery) = none) :
      Moves state .search (afterMiss state delivery)
  | skip {delivery : Delivery} (searched : state.receiver = .searched delivery)
      (null : state.callbackNode = .null) : Moves state .dispatch { state with receiver := .idle }
  | pass {delivery : Delivery} {id : Nat} {call : Call}
      (searched : state.receiver = .searched delivery) (pointed : state.callbackNode = .node id)
      (known : state.calls[id]? = some call) (live : call.live = true) :
      Moves state .dispatch (state.passed id call delivery)
  | fault {event : Event} (faults : Faults state event) : Moves state event state.fault

section Moves

variable {state next : State} {event : Event} {id other : Nat} {call : Call} {phase : Phase}
  {delivery : Delivery}

theorem at_eq_some {act : Call → State} :
    state.at_ id phase act = some next ↔
      ∃ call, state.calls[id]? = some call ∧ call.phase = phase ∧ act call = next := by
  unfold State.at_
  cases known : state.calls[id]? with
  | none => simp
  | some call => simp

theorem moves_link (known : state.calls[id]? = some call) (here : call.phase = .sent) :
    Moves state (.link id) (state.link id call) := by
  cases kind : call.kind with
  | request =>
      cases added : listAddTail state.cmdIdOf state.responseCallbackList id with
      | none =>
          have same : state.link id call = state.fault := by simp only [State.link, kind, added]
          exact same ▸ .fault (.link id)
      | some list =>
          have same : state.link id call = state.linked id call := by
            simp [State.link, State.linked, State.setCall, Call.afterLink, kind, added,
              eq_of_listAddTail added]
          exact same ▸ .link known here
  | register =>
      cases added : listAddTail state.cmdIdOf state.registerCallbackList id with
      | none =>
          have same : state.link id call = state.fault := by simp only [State.link, kind, added]
          exact same ▸ .fault (.link id)
      | some list =>
          have same : state.link id call = state.linked id call := by
            simp [State.link, State.linked, State.setCall, Call.afterLink, kind, added,
              eq_of_listAddTail added]
          exact same ▸ .link known here

theorem moves_search (received : state.receiver = .received delivery)
    (either : (delivery.isRespond || delivery.isUnsolicited) = true) :
    Moves state .search (state.search delivery) := by
  rcases search_cases state delivery with faulted | hit | missed
  · rw [faulted.1]
    exact .fault (.search received faulted.2)
  · obtain ⟨id, hits, same⟩ := hit
    rw [same]
    exact .hit received either hits
  · rw [missed.2.2]
    exact .miss received either missed.1 missed.2.1

theorem moves_dispatch (searched : state.receiver = .searched delivery) :
    Moves state .dispatch (state.dispatch delivery) := by
  have faulted : state.callbackNode ≠ .null →
      (∀ id, state.callbackNode = .node id → state.cmdIdOf id = none) →
      state.dispatch delivery = state.fault → Moves state .dispatch (state.dispatch delivery) := by
    intro used freed same
    rw [same]
    exact .fault (.dispatch searched used freed)
  cases pointed : state.callbackNode with
  | null =>
      have same : state.dispatch delivery = { state with receiver := .idle } := by
        simp only [State.dispatch, pointed]
      rw [same]
      exact .skip searched pointed
  | wild =>
      apply faulted
      · rw [pointed]
        simp
      · intro id same
        rw [pointed] at same
        contradiction
      · simp only [State.dispatch, pointed]
  | node id =>
      cases known : state.calls[id]? with
      | none =>
          apply faulted
          · rw [pointed]
            simp
          · intro other same
            cases pointed.symm.trans same
            simp only [State.cmdIdOf, known, Option.bind_none]
          · simp only [State.dispatch, pointed, known]
      | some call =>
          cases live : call.live with
          | false =>
              apply faulted
              · rw [pointed]
                simp
              · intro other same
                cases pointed.symm.trans same
                simp [State.cmdIdOf, known, live]
              · simp [State.dispatch, pointed, known, live]
          | true =>
              have same : state.dispatch delivery = state.passed id call delivery := by
                simp only [State.dispatch, pointed, known, live, if_true, State.passed]
              rw [same]
              exact .pass searched pointed known live

theorem moves_of_step (taken : step state event = some next) : Moves state event next := by
  unfold step at taken
  by_cases undefined : state.undefined = true
  · rw [if_pos undefined] at taken
    contradiction
  · rw [if_neg undefined] at taken
    cases event with
    | begin kind cmdId callback =>
        cases taken
        exact .begin kind cmdId callback
    | fail id =>
        obtain ⟨call, known, here, rfl⟩ := at_eq_some.mp taken
        exact .retire known (.fail here)
    | send id =>
        obtain ⟨call, known, here, rfl⟩ := at_eq_some.mp taken
        exact .advance known (.send here)
    | link id =>
        obtain ⟨call, known, here, rfl⟩ := at_eq_some.mp taken
        exact moves_link known here
    | wait id =>
        obtain ⟨call, known, here, rfl⟩ := at_eq_some.mp taken
        cases live : call.live with
        | false =>
            rw [State.wait, if_neg (by simp [live])]
            exact .fault (.caller known (by rw [here]; rfl) live (.inl rfl))
        | true =>
            rw [State.wait, if_pos live]
            exact .advance known (.wait here live)
    | spurious id =>
        obtain ⟨call, known, here, rfl⟩ := at_eq_some.mp taken
        exact .advance known (.spurious here)
    | timeout id =>
        obtain ⟨call, known, here, rfl⟩ := at_eq_some.mp taken
        cases live : call.live with
        | false =>
            rw [State.timeout, if_neg (by simp [live])]
            exact .fault (.caller known (by rw [here]; rfl) live (.inr (.inl rfl)))
        | true =>
            rw [State.timeout, if_pos live]
            exact .retire known (.timeout here live)
    | finish id =>
        obtain ⟨call, known, here, rfl⟩ := at_eq_some.mp taken
        cases live : call.live with
        | false =>
            rw [State.finish, if_neg (by simp [live])]
            exact .fault (.caller known (by rw [here]; rfl) live (.inr (.inr rfl)))
        | true =>
            rw [State.finish, if_pos live]
            exact .advance known (.finish here live)
    | receive delivery =>
        dsimp only at taken
        by_cases idle : state.receiver = .idle
        · rw [if_pos idle] at taken
          cases taken
          exact .receive delivery idle
        · rw [if_neg idle] at taken
          contradiction
    | search =>
        cases received : state.receiver with
        | idle =>
            rw [received] at taken
            contradiction
        | searched delivery =>
            rw [received] at taken
            contradiction
        | received delivery =>
            rw [received] at taken
            cases either : delivery.isRespond || delivery.isUnsolicited with
            | false =>
                simp only [either, Bool.false_eq_true, if_false, Option.some.injEq] at taken
                exact taken ▸ .ignore received either
            | true =>
                simp only [either, if_true, Option.some.injEq] at taken
                exact taken ▸ moves_search received either
    | dispatch =>
        cases searched : state.receiver with
        | idle =>
            rw [searched] at taken
            contradiction
        | received delivery =>
            rw [searched] at taken
            contradiction
        | searched delivery =>
            rw [searched] at taken
            cases taken
            exact moves_dispatch searched

theorem defined_of_step (taken : step state event = some next) : state.undefined = false := by
  unfold step at taken
  split at taken
  · contradiction
  · rename_i defined
    exact Bool.not_eq_true _ ▸ defined

theorem receive_of_step (taken : step state (.receive delivery) = some next) :
    state.receiver = .idle ∧ next = { state with receiver := .received delivery } := by
  cases moves_of_step taken with
  | advance known advances => contradiction
  | retire known retires => contradiction
  | receive idle => exact ⟨by assumption, rfl⟩
  | fault faults =>
      cases faults with
      | caller known late freed event_ => rcases event_ with same | same | same <;> contradiction

theorem getElem?_setCall (known : state.calls[id]? = some call) (after : Call) :
    (state.setCall id after).calls[other]? = if other = id then some after else state.calls[other]? := by
  have inside : id < state.calls.length := (List.getElem?_eq_some_iff.mp known).1
  simp only [State.setCall, List.getElem?_set, inside, if_true, eq_comm]

theorem cmdIdOf_congr (same : next.calls[id]? = state.calls[id]?) : next.cmdIdOf id = state.cmdIdOf id := by
  simp only [State.cmdIdOf, same]

theorem cmdIdOf_setCall {after : Call} (known : state.calls[id]? = some call)
    (cmdId : after.cmdId = call.cmdId) (live : after.live = call.live) :
    (state.setCall id after).cmdIdOf other = state.cmdIdOf other := by
  simp only [State.cmdIdOf, getElem?_setCall known]
  by_cases same : other = id
  · rw [if_pos same, same, known]
    simp only [Option.bind_some, cmdId, live]
  · rw [if_neg same]

/-- What is fixed about a call, and what is never undone. -/
structure Call.Later (call after : Call) : Prop where
  kind : after.kind = call.kind
  cmdId : after.cmdId = call.cmdId
  callback : after.callback = call.callback
  begun : call.phase ≠ .started → after.phase ≠ .started
  late : call.phase.early = false → after.phase.early = false
  live : after.live = true → call.live = true

theorem Call.Later.refl (call : Call) : call.Later call :=
  ⟨rfl, rfl, rfl, fun begun => begun, fun late => late, fun live => live⟩

/-- The change a step makes to the calls. -/
inductive CallsChange (calls : List Call) : List Call → Prop
  | none : CallsChange calls calls
  | added (call : Call) (early : call.phase.early = true) (live : call.live = true) :
      CallsChange calls (calls ++ [call])
  | changed {id : Nat} {call after : Call} (known : calls[id]? = some call)
      (later : call.Later after) : CallsChange calls (calls.set id after)

theorem Advance.later (advances : Advance id call event phase) : call.Later { call with phase } := by
  cases advances with
  | send here => exact ⟨rfl, rfl, rfl, fun _ => by simp, fun late => by rw [here] at late; contradiction, fun live => live⟩
  | wait here live => exact ⟨rfl, rfl, rfl, fun _ => by simp, fun _ => rfl, fun live => live⟩
  | spurious here => exact ⟨rfl, rfl, rfl, fun _ => by simp, fun _ => rfl, fun live => live⟩
  | finish here live => exact ⟨rfl, rfl, rfl, fun _ => by simp, fun _ => rfl, fun live => live⟩

theorem Call.afterLink_late (call : Call) : call.afterLink.early = false := by
  unfold Call.afterLink
  split <;> rfl

theorem Call.afterLink_begun (call : Call) : call.afterLink ≠ .started := by
  unfold Call.afterLink
  split <;> simp

theorem passed_calls (state : State) (id : Nat) (call : Call) (delivery : Delivery) :
    ∃ after, (state.passed id call delivery).calls = state.calls.set id after ∧ call.Later after := by
  unfold State.passed
  split
  · refine ⟨_, rfl, ?_⟩
    exact {
      kind := rfl
      cmdId := rfl
      callback := rfl
      begun := by
        intro begun
        dsimp only
        split
        · simp
        · exact begun
      late := by
        intro late
        dsimp only
        split
        · rfl
        · exact late
      live := fun live => live }
  · exact ⟨_, rfl, rfl, rfl, rfl, fun begun => begun, fun late => late, fun live => by contradiction⟩

theorem Moves.calls (moves : Moves state event next) : CallsChange state.calls next.calls := by
  cases moves with
  | begin kind cmdId callback => exact .added _ rfl rfl
  | advance known advances => exact .changed known advances.later
  | retire known retires =>
      exact .changed known ⟨rfl, rfl, rfl, fun _ => by simp, fun _ => rfl, fun live => by contradiction⟩
  | link known here =>
      exact .changed known ⟨rfl, rfl, rfl, fun _ => Call.afterLink_begun _,
        fun _ => Call.afterLink_late _, fun live => live⟩
  | receive delivery idle => exact .none
  | ignore received neither => exact .none
  | hit received either hits => exact .none
  | miss received either live missed => exact .none
  | skip searched null => exact .none
  | pass searched pointed known live =>
      obtain ⟨after, same, later⟩ := passed_calls state _ _ _
      rw [same]
      exact .changed known later
  | fault faults => exact .none

theorem CallsChange.keeps {calls after : List Call} (change : CallsChange calls after)
    (known : calls[id]? = some call) : ∃ changed, after[id]? = some changed ∧ call.Later changed := by
  have inside : id < calls.length := (List.getElem?_eq_some_iff.mp known).1
  cases change with
  | none => exact ⟨call, known, .refl call⟩
  | added call early live => exact ⟨_, by rw [List.getElem?_append_left inside, known], .refl _⟩
  | @changed other earlier changed found later =>
      by_cases same : other = id
      · cases same
        cases known.symm.trans found
        exact ⟨changed, by simp [inside], later⟩
      · exact ⟨call, by rw [List.getElem?_set_ne same, known], .refl call⟩

/-- The call of this kind is past linking its node. -/
def State.Late (state : State) (id : Nat) (kind : Kind) : Prop :=
  ∃ call, state.calls[id]? = some call ∧ call.kind = kind ∧ call.phase.early = false

theorem Moves.late {kind : Kind} (moves : Moves state event next) (late : state.Late id kind) :
    next.Late id kind := by
  obtain ⟨call, known, same, past⟩ := late
  obtain ⟨after, found, later⟩ := moves.calls.keeps known
  exact ⟨after, found, later.kind.trans same, later.late past⟩

/-- Before its node is linked nothing frees it, and only a synchronous request waits. -/
structure Call.Sound (call : Call) : Prop where
  fresh : call.phase.early = true → call.live = true
  waits : call.kind = .register ∨ call.callback.isSome →
    call.phase.early = true ∨ ∃ status, call.phase = .returned status

structure Sound (state : State) : Prop where
  requests : ∀ id ∈ state.responseCallbackList, state.Late id .request
  registers : ∀ id ∈ state.registerCallbackList, state.Late id .register
  pointed : ∀ id, state.callbackNode = .node id → ∃ kind, state.Late id kind
  handed : ∀ handed ∈ state.handed, ∃ kind, state.Late handed.id kind
  calls : ∀ call ∈ state.calls, call.Sound

theorem sound_initial (isNull : Bool) : Sound (initial isNull) where
  requests := fun _ member => by contradiction
  registers := fun _ member => by contradiction
  pointed := fun id same => by cases isNull <;> contradiction
  handed := fun _ member => by contradiction
  calls := fun _ member => by contradiction

theorem Advance.sound (advances : Advance id call event phase) (sound : call.Sound) :
    Call.Sound { call with phase } := by
  have waits : call.phase.early = false → (∀ status, call.phase ≠ .returned status) →
      ¬ (call.kind = .register ∨ call.callback.isSome) := by
    intro late busy returns
    rcases sound.waits returns with early | returned
    · rw [late] at early
      contradiction
    · exact busy _ returned.choose_spec
  cases advances with
  | send here => exact ⟨fun _ => sound.fresh (by rw [here]; rfl), fun _ => .inl rfl⟩
  | wait here live =>
      have never := waits (by rw [here]; rfl) (by rw [here]; simp)
      exact ⟨fun early => by contradiction, fun returns => absurd returns never⟩
  | spurious here =>
      have never := waits (by rw [here]; rfl) (by rw [here]; simp)
      exact ⟨fun early => by contradiction, fun returns => absurd returns never⟩
  | finish here live => exact ⟨fun early => by contradiction, fun _ => .inr ⟨0, rfl⟩⟩

theorem passed_sound {after : Call} (late : call.phase.early = false) (sound : call.Sound)
    (member : after ∈ (state.passed id call delivery).calls) : after ∈ state.calls ∨ after.Sound := by
  have idle : call.kind = .register ∨ call.callback.isSome →
      ∃ status, call.phase = .returned status := by
    intro returns
    rcases sound.waits returns with early | returned
    · rw [late] at early
      contradiction
    · exact returned
  unfold State.passed at member
  split at member
  · rcases List.mem_or_eq_of_mem_set member with old | rfl
    · exact .inl old
    · right
      exact {
        fresh := by
          intro early
          dsimp only at early
          split at early
          · contradiction
          · rw [late] at early
            contradiction
        waits := by
          intro returns
          obtain ⟨status, returned⟩ := idle returns
          exact .inr ⟨status, by simp [returned]⟩ }
  · rcases List.mem_or_eq_of_mem_set member with old | rfl
    · exact .inl old
    · right
      exact {
        fresh := by
          intro early
          rw [show call.phase.early = true from early] at late
          contradiction
        waits := fun returns => .inr (idle returns) }

theorem Sound.callAt (sound : Sound state) (known : state.calls[id]? = some call) : call.Sound :=
  sound.calls call (List.mem_of_getElem? known)

theorem Sound.pointedLate (sound : Sound state) (pointed : state.callbackNode = .node id)
    (known : state.calls[id]? = some call) : call.phase.early = false := by
  obtain ⟨kind, found, same, _, late⟩ := sound.pointed id pointed
  cases known.symm.trans same
  exact late

theorem sound_calls (sound : Sound state) (moves : Moves state event next) :
    ∀ call ∈ next.calls, call.Sound := by
  intro after member
  have changed : ∀ id replacement, replacement.Sound → after ∈ state.calls.set id replacement →
      after.Sound := by
    intro id replacement fine inside
    rcases List.mem_or_eq_of_mem_set inside with old | rfl
    · exact sound.calls after old
    · exact fine
  cases moves with
  | begin kind cmdId callback =>
      rcases List.mem_append.mp member with old | new
      · exact sound.calls after old
      · cases List.mem_singleton.mp new
        exact ⟨fun _ => rfl, fun _ => .inl rfl⟩
  | advance known advances => exact changed _ _ (advances.sound (sound.callAt known)) member
  | retire known retires =>
      exact changed _ _ ⟨fun early => by contradiction, fun _ => .inr ⟨1, rfl⟩⟩ member
  | @link id call known here =>
      have fine : Call.Sound { call with phase := call.afterLink } := by
        exact {
          fresh := fun early => absurd early (by simp [Call.afterLink_late])
          waits := by
            intro returns
            exact .inr ⟨0, by rw [Call.afterLink, if_pos returns]⟩ }
      exact changed _ _ fine member
  | receive delivery idle => exact sound.calls after member
  | ignore received neither => exact sound.calls after member
  | hit received either hits => exact sound.calls after member
  | miss received either live missed => exact sound.calls after member
  | skip searched null => exact sound.calls after member
  | pass searched pointed known live =>
      rcases passed_sound (sound.pointedLate pointed known) (sound.callAt known) member with old | fine
      · exact sound.calls after old
      · exact fine
  | fault faults => exact sound.calls after member

theorem late_linked (known : state.calls[id]? = some call) :
    (state.linked id call).Late id call.kind := by
  refine ⟨{ call with phase := call.afterLink }, ?_, rfl, Call.afterLink_late call⟩
  exact (getElem?_setCall known _).trans (if_pos rfl)

theorem mem_linked_responses (member : other ∈ (state.linked id call).responseCallbackList) :
    other ∈ state.responseCallbackList ∨ (other = id ∧ call.kind = .request) := by
  simp only [State.linked] at member
  split at member
  · rename_i request
    rcases List.mem_append.mp member with old | new
    · exact .inl old
    · exact .inr ⟨List.mem_singleton.mp new, request⟩
  · exact .inl member

theorem mem_linked_registers (member : other ∈ (state.linked id call).registerCallbackList) :
    other ∈ state.registerCallbackList ∨ (other = id ∧ call.kind = .register) := by
  simp only [State.linked] at member
  split at member
  · rename_i register
    rcases List.mem_append.mp member with old | new
    · exact .inl old
    · exact .inr ⟨List.mem_singleton.mp new, register⟩
  · exact .inl member

theorem mem_listFor_hits (hits : Hits state delivery id) : id ∈ state.listFor delivery := by
  obtain ⟨before, after, split, _⟩ := hits.1
  rw [split]
  simp

theorem late_of_mem_listFor (sound : Sound state) (member : id ∈ state.listFor delivery) :
    ∃ kind, state.Late id kind := by
  unfold State.listFor at member
  split at member
  · exact ⟨_, sound.requests id member⟩
  · exact ⟨_, sound.registers id member⟩

theorem mem_afterHit_responses (member : other ∈ (afterHit state delivery id).responseCallbackList) :
    other ∈ state.responseCallbackList := by
  simp only [afterHit] at member
  split at member
  · exact List.mem_of_mem_erase member
  · exact member

theorem passed_lists (state : State) (id : Nat) (call : Call) (delivery : Delivery) :
    (state.passed id call delivery).responseCallbackList = state.responseCallbackList ∧
    (state.passed id call delivery).registerCallbackList = state.registerCallbackList ∧
    (state.passed id call delivery).callbackNode = state.callbackNode ∧
    (state.passed id call delivery).receiver = .idle := by
  unfold State.passed
  split <;> exact ⟨rfl, rfl, rfl, rfl⟩

theorem passed_signalled (known : state.calls[id]? = some call)
    (signalled : (delivery.isRespond && call.callback.isNone) = true) :
    (state.passed id call delivery).calls[id]? =
      some { call with phase := if call.phase = .waiting then .woken else call.phase } := by
  rw [State.passed, if_pos signalled]
  exact (getElem?_setCall known _).trans (if_pos rfl)

theorem passed_freed (known : state.calls[id]? = some call)
    (completed : ¬ (delivery.isRespond && call.callback.isNone) = true) :
    (state.passed id call delivery).calls[id]? = some { call with live := false } := by
  rw [State.passed, if_neg completed]
  exact (getElem?_setCall known _).trans (if_pos rfl)

theorem passed_other (call : Call) (delivery : Delivery) (different : other ≠ id) :
    (state.passed id call delivery).calls[other]? = state.calls[other]? := by
  obtain ⟨after, calls, _⟩ := passed_calls state id call delivery
  rw [calls, List.getElem?_set_ne (Ne.symm different)]

/-- A message is handed on to the node that is passed, or (without a callback) to nobody. -/
theorem passed_handed (state : State) (id : Nat) (call : Call) (delivery : Delivery) :
    (state.passed id call delivery).handed =
      if delivery.isRespond || call.callback.isSome then state.handed ++ [⟨id, delivery⟩]
      else state.handed := by
  unfold State.passed State.processSyncCall State.processAsyncCall
  cases delivery.isRespond <;> cases call.callback <;> rfl

theorem sound_moves (sound : Sound state) (moves : Moves state event next) : Sound next where
  calls := sound_calls sound moves
  requests := by
    have old : ∀ id ∈ state.responseCallbackList, next.Late id .request :=
      fun id member => moves.late (sound.requests id member)
    cases moves with
    | link known here =>
        intro other member
        rcases mem_linked_responses member with earlier | new
        · exact old other earlier
        · obtain ⟨rfl, request⟩ := new
          exact request ▸ late_linked known
    | hit received either hits => exact fun other member => old other (mem_afterHit_responses member)
    | pass searched pointed known live =>
        rw [(passed_lists state _ _ _).1]
        exact old
    | _ => exact old
  registers := by
    have old : ∀ id ∈ state.registerCallbackList, next.Late id .register :=
      fun id member => moves.late (sound.registers id member)
    cases moves with
    | link known here =>
        intro other member
        rcases mem_linked_registers member with earlier | new
        · exact old other earlier
        · obtain ⟨rfl, register⟩ := new
          exact register ▸ late_linked known
    | pass searched pointed known live =>
        rw [(passed_lists state _ _ _).2.1]
        exact old
    | _ => exact old
  pointed := by
    have old : ∀ id, state.callbackNode = .node id → ∃ kind, next.Late id kind := by
      intro id same
      obtain ⟨kind, late⟩ := sound.pointed id same
      exact ⟨kind, moves.late late⟩
    have linked : ∀ delivery, ∀ id ∈ state.listFor delivery, ∃ kind, next.Late id kind := by
      intro delivery id member
      obtain ⟨kind, late⟩ := late_of_mem_listFor sound member
      exact ⟨kind, moves.late late⟩
    cases moves with
    | hit received either hits =>
        intro other same
        cases same
        exact linked _ _ (mem_listFor_hits hits)
    | @miss delivery received either live missed =>
        intro other same
        simp only [afterMiss] at same
        cases last : (state.listFor delivery).getLast? with
        | none =>
            rw [last] at same
            exact old other same
        | some id =>
            rw [last] at same
            cases same
            exact linked delivery _ (List.mem_of_getLast? last)
    | pass searched pointed known live =>
        rw [(passed_lists state _ _ _).2.2.1]
        exact old
    | _ => exact old
  handed := by
    have old : ∀ handed ∈ state.handed, ∃ kind, next.Late handed.id kind := by
      intro handed member
      obtain ⟨kind, late⟩ := sound.handed handed member
      exact ⟨kind, moves.late late⟩
    have pass := moves
    cases moves with
    | pass searched pointed known live =>
        intro handed member
        rw [passed_handed] at member
        split at member
        · rcases List.mem_append.mp member with earlier | new
          · exact old handed earlier
          · cases List.mem_singleton.mp new
            obtain ⟨kind, late⟩ := sound.pointed _ pointed
            exact ⟨kind, pass.late late⟩
        · exact old handed member
    | _ => exact old

end Moves

end Dwadelib.Ipc.Client
