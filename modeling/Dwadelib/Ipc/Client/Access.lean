import Dwadelib.Ipc.Client.Step

namespace Dwadelib.Ipc.Client

/-! # Steps that touch no freed node

A step makes an undefined access exactly if a node that it reads or writes has been freed.
-/

section Access

variable {state next : State} {event : Event} {delivery : Delivery} {id : Nat} {call : Call}

def State.listOf (state : State) : Kind → List Nat
  | .request => state.responseCallbackList
  | .register => state.registerCallbackList

/-- The nodes that the step touches are not freed: the last one of the list that is extended, the
one of a caller that comes back to it, those that the search loop and the unlinking visit, and the
one that is passed on. -/
def OnLive (state : State) : Event → Prop
  | .link id => ∀ call, state.calls[id]? = some call →
      ∀ last ∈ (state.listOf call.kind).getLast?, (state.cmdIdOf last).isSome
  | .wait id | .timeout id | .finish id => (state.cmdIdOf id).isSome
  | .search => ∀ delivery, state.receiver = .received delivery →
      (delivery.isRespond || delivery.isUnsolicited) = true → ∃ pointer, EndsAt state delivery pointer
  | .dispatch => state.callbackNode = .null ∨ ∃ id, state.callbackNode = .node id ∧ (state.cmdIdOf id).isSome
  | _ => True

theorem live_iff_cmdIdOf (known : state.calls[id]? = some call) :
    call.live = true ↔ (state.cmdIdOf id).isSome := by
  simp only [State.cmdIdOf, known, Option.bind_some]
  split
  · rename_i live
    exact iff_of_true live rfl
  · rename_i freed
    exact iff_of_false freed fun given => by contradiction

/-- A caller comes back to its own node. -/
theorem defined_own {next : State} (kept : next.undefined = false) :
    (if call.live then next else state.fault).undefined = false ↔ call.live = true := by
  by_cases live : call.live = true
  · rw [if_pos live]
    exact iff_of_true kept live
  · rw [if_neg live]
    exact iff_of_false (fun given => by contradiction) live

theorem listAddTail_isSome (id : Nat) {list : List Nat} :
    (listAddTail state.cmdIdOf list id).isSome ↔ ∀ last ∈ list.getLast?, (state.cmdIdOf last).isSome := by
  rw [listAddTail]
  split
  · rename_i live
    exact iff_of_true rfl fun last found => (Option.all_eq_true _ _).mp live last found
  · rename_i freed
    refine iff_of_false (fun given => by contradiction) fun live => freed ?_
    exact (Option.all_eq_true _ _).mpr live

theorem defined_link (defined : state.undefined = false) :
    (state.link id call).undefined = false ↔
      ∀ last ∈ (state.listOf call.kind).getLast?, (state.cmdIdOf last).isSome := by
  rw [← listAddTail_isSome id, State.link]
  cases call.kind with
  | request =>
      cases added : listAddTail state.cmdIdOf state.responseCallbackList id with
      | none => exact iff_of_false (fun given => by contradiction) (by simp [State.listOf, added])
      | some list => exact iff_of_true defined (by simp [State.listOf, added])
  | register =>
      cases added : listAddTail state.cmdIdOf state.registerCallbackList id with
      | none => exact iff_of_false (fun given => by contradiction) (by simp [State.listOf, added])
      | some list => exact iff_of_true defined (by simp [State.listOf, added])

theorem defined_search (defined : state.undefined = false) :
    (state.search delivery).undefined = false ↔ ∃ pointer, EndsAt state delivery pointer := by
  rcases search_cases state delivery with faulted | hit | missed
  · obtain ⟨same, noEnd⟩ := faulted
    rw [same]
    refine iff_of_false (fun given => by contradiction) fun given => ?_
    exact noEnd _ given.choose_spec
  · obtain ⟨id, hits, same⟩ := hit
    rw [same]
    exact iff_of_true defined ⟨_, .hit hits⟩
  · obtain ⟨live, none, same⟩ := missed
    rw [same]
    exact iff_of_true defined ⟨_, .miss live none⟩

theorem defined_dispatch (defined : state.undefined = false) :
    (state.dispatch delivery).undefined = false ↔
      state.callbackNode = .null ∨ ∃ id, state.callbackNode = .node id ∧ (state.cmdIdOf id).isSome := by
  cases pointed : state.callbackNode with
  | null => exact iff_of_true (by simpa only [State.dispatch, pointed] using defined) (.inl rfl)
  | wild =>
      refine iff_of_false ?_ fun given => ?_
      · simp only [State.dispatch, pointed, State.fault, Bool.true_eq_false, not_false_eq_true]
      · rcases given with null | node
        · contradiction
        · exact absurd node.choose_spec.1 (by simp)
  | node id =>
      simp only [State.dispatch, pointed, reduceCtorEq, false_or, NodePointer.node.injEq, exists_eq_left']
      cases known : state.calls[id]? with
      | none => exact iff_of_false (fun given => by contradiction) (by simp [State.cmdIdOf, known])
      | some call =>
          dsimp only
          rw [← live_iff_cmdIdOf known]
          by_cases live : call.live = true
          · rw [if_pos live]
            refine iff_of_true ?_ live
            split
            · exact defined
            · exact defined
          · rw [if_neg live]
            exact iff_of_false (fun given => by contradiction) live

/-- A step is defined exactly if it touches no freed node. -/
theorem defined_iff_onLive (taken : step state event = some next) :
    next.undefined = false ↔ OnLive state event := by
  have defined := defined_of_step taken
  unfold step at taken
  rw [if_neg (by rw [defined]; decide)] at taken
  cases event with
  | begin kind cmdId callback =>
      cases taken
      exact iff_of_true defined trivial
  | fail id =>
      obtain ⟨call, known, here, rfl⟩ := at_eq_some.mp taken
      exact iff_of_true defined trivial
  | send id =>
      obtain ⟨call, known, here, rfl⟩ := at_eq_some.mp taken
      exact iff_of_true defined trivial
  | link id =>
      obtain ⟨call, known, here, rfl⟩ := at_eq_some.mp taken
      refine (defined_link defined).trans ?_
      simp only [OnLive, known, Option.some.injEq, forall_eq']
  | wait id =>
      obtain ⟨call, known, here, rfl⟩ := at_eq_some.mp taken
      exact Iff.trans (defined_own (by exact defined)) (live_iff_cmdIdOf known)
  | spurious id =>
      obtain ⟨call, known, here, rfl⟩ := at_eq_some.mp taken
      exact iff_of_true defined trivial
  | timeout id =>
      obtain ⟨call, known, here, rfl⟩ := at_eq_some.mp taken
      exact Iff.trans (defined_own (by exact defined)) (live_iff_cmdIdOf known)
  | finish id =>
      obtain ⟨call, known, here, rfl⟩ := at_eq_some.mp taken
      exact Iff.trans (defined_own (by exact defined)) (live_iff_cmdIdOf known)
  | receive delivery =>
      obtain ⟨idle, rfl⟩ := Option.ite_none_right_eq_some.mp taken |>.imp_right Option.some.inj
      exact iff_of_true defined trivial
  | search =>
      cases received : state.receiver with
      | idle => simp [received] at taken
      | searched delivery => simp [received] at taken
      | received delivery =>
          simp only [received] at taken
          simp only [OnLive, received, Receiver.received.injEq, forall_eq']
          split at taken
          · rename_i either
            cases taken
            rw [defined_search defined]
            exact ⟨fun ends _ => ends, fun ends => ends either⟩
          · rename_i neither
            cases taken
            exact iff_of_true defined fun either => absurd either neither
  | dispatch =>
      cases searched : state.receiver with
      | idle => simp [searched] at taken
      | received delivery => simp [searched] at taken
      | searched delivery =>
          simp only [searched, Option.some.injEq] at taken
          rw [← taken]
          exact defined_dispatch defined

end Access

end Dwadelib.Ipc.Client
