import Dwadelib.Ipc.Client.Step

namespace Dwadelib.Ipc.Client

/-! # Which nodes stay linked

A synchronous caller frees or abandons its node when `pthread_cond_timedwait` returns, and
only `start_receive` unlinks it.
-/

/-- The node is not freed, and its caller still waits or its callback has not run. -/
def Outstanding (state : State) (id : Nat) : Prop :=
  ∃ call, state.calls[id]? = some call ∧ call.live = true ∧
    match call.callback with
    | none => call.phase = .linked ∨ call.phase = .waiting
    | some _ => ∀ handed ∈ state.handed, handed.id ≠ id

def OnlyOutstanding (state : State) : Prop :=
  ∀ id ∈ state.responseCallbackList, Outstanding state id

/-- The step ends no wait and passes no node on while the node is linked. The receiver may
signal a caller that has not begun to wait, since nothing comes of it. -/
def UnlinksFirst (state : State) : Event → Prop
  | .timeout id => id ∉ state.responseCallbackList
  | .spurious id => id ∉ state.responseCallbackList
  | .dispatch => ∀ id call delivery, state.receiver = .searched delivery →
      state.callbackNode = .node id → state.calls[id]? = some call →
      id ∈ state.responseCallbackList →
      delivery.isRespond = true ∧ call.callback = none ∧ call.phase = .linked
  | _ => True

section Outstanding

variable {state next : State} {event : Event} {id : Nat} {call : Call} {phase : Phase}
  {delivery : Delivery}

theorem outstanding_frame (outstanding : Outstanding state id)
    (known : next.calls[id]? = state.calls[id]?)
    (handed : ∀ handed ∈ next.handed, handed ∈ state.handed ∨ handed.id ≠ id) :
    Outstanding next id := by
  obtain ⟨call, found, live, open_⟩ := outstanding
  refine ⟨call, known.trans found, live, ?_⟩
  cases callback : call.callback with
  | none => simpa only [callback] using open_
  | some function =>
      simp only [callback] at open_ ⊢
      intro given member
      rcases handed given member with old | other
      · exact open_ given old
      · exact other

theorem Outstanding.known (outstanding : Outstanding state id)
    (known : state.calls[id]? = some call) : call.live = true ∧
      match call.callback with
      | none => call.phase = .linked ∨ call.phase = .waiting
      | some _ => ∀ handed ∈ state.handed, handed.id ≠ id := by
  obtain ⟨other, found, rest⟩ := outstanding
  cases known.symm.trans found
  exact rest

theorem not_linked_of_early (sound : Sound state) (known : state.calls[id]? = some call)
    (early : call.phase.early = true) : id ∉ state.responseCallbackList := by
  intro member
  obtain ⟨other, found, _, late⟩ := sound.requests id member
  cases known.symm.trans found
  rw [early] at late
  contradiction

/-- A caller whose node is linked and outstanding is a synchronous one if it waits or woke up. -/
theorem callback_none_of_phase (sound : Sound state) (known : state.calls[id]? = some call)
    (late : call.phase.early = false) (busy : ∀ status, call.phase ≠ .returned status) :
    call.callback = none := by
  cases callback : call.callback with
  | none => rfl
  | some function =>
      rcases (sound.callAt known).waits (.inr (by rw [callback]; rfl)) with early | returned
      · rw [early] at late
        contradiction
      · exact absurd returned.choose_spec (busy _)

theorem onlyOutstanding_setCall {after : Call} (outstanding : OnlyOutstanding state)
    (known : state.calls[id]? = some call)
    (kept : id ∈ state.responseCallbackList → Outstanding (state.setCall id after) id) :
    OnlyOutstanding (state.setCall id after) := by
  intro other member
  by_cases same : other = id
  · exact same ▸ kept (same ▸ member)
  · refine outstanding_frame (outstanding other member) ?_ fun given old => .inl old
    rw [getElem?_setCall known, if_neg same]

theorem onlyOutstanding_unlinked {after : Call} (outstanding : OnlyOutstanding state)
    (known : state.calls[id]? = some call) (unlinked : id ∉ state.responseCallbackList) :
    OnlyOutstanding (state.setCall id after) := by
  apply onlyOutstanding_setCall outstanding known
  intro member
  exact absurd member unlinked

/-- While only outstanding requests are linked, a caller that woke up is not. -/
theorem not_linked_of_woken (outstanding : OnlyOutstanding state)
    (known : state.calls[id]? = some call) (synchronous : call.callback = none)
    (woken : call.phase = .woken) : id ∉ state.responseCallbackList := by
  intro member
  have open_ := ((outstanding id member).known known).2
  simp only [synchronous, woken] at open_
  rcases open_ with linked | waiting <;> contradiction

theorem outstanding_advance (sound : Sound state) (outstanding : OnlyOutstanding state)
    (known : state.calls[id]? = some call) (advances : Advance id call event phase) :
    OnlyOutstanding (state.setCall id { call with phase }) ↔ UnlinksFirst state event := by
  have changed : (state.setCall id { call with phase }).calls[id]? = some { call with phase } :=
    (getElem?_setCall known _).trans (if_pos rfl)
  cases advances with
  | send here =>
      have unlinked := not_linked_of_early sound known (by rw [here]; rfl)
      exact iff_of_true (onlyOutstanding_unlinked outstanding known unlinked) trivial
  | wait here live =>
      have synchronous := callback_none_of_phase sound known (by rw [here]; rfl) (by rw [here]; simp)
      have waits : Outstanding (state.setCall id { call with phase := .waiting }) id := by
        refine ⟨_, changed, live, ?_⟩
        rw [synchronous]
        exact .inr rfl
      exact iff_of_true (onlyOutstanding_setCall outstanding known fun _ => waits) trivial
  | spurious here =>
      have synchronous := callback_none_of_phase sound known (by rw [here]; rfl) (by rw [here]; simp)
      constructor
      · intro kept
        have unlinked := not_linked_of_woken kept changed synchronous rfl
        exact unlinked
      · exact onlyOutstanding_unlinked outstanding known
  | finish here live =>
      have synchronous := callback_none_of_phase sound known (by rw [here]; rfl) (by rw [here]; simp)
      have unlinked := not_linked_of_woken outstanding known synchronous here
      exact iff_of_true (onlyOutstanding_unlinked outstanding known unlinked) trivial

theorem outstanding_retire (sound : Sound state) (outstanding : OnlyOutstanding state)
    (known : state.calls[id]? = some call) (retires : Retire id call event) :
    OnlyOutstanding (state.setCall id { call with phase := .returned 1, live := false }) ↔
      UnlinksFirst state event := by
  have changed := (getElem?_setCall known { call with phase := .returned 1, live := false }).trans
    (if_pos rfl)
  cases retires with
  | fail here =>
      have unlinked := not_linked_of_early sound known (by rw [here]; rfl)
      exact iff_of_true (onlyOutstanding_unlinked outstanding known unlinked) trivial
  | timeout here live =>
      constructor
      · intro kept member
        have freed := ((kept id member).known changed).1
        contradiction
      · exact onlyOutstanding_unlinked outstanding known

theorem outstanding_link (sound : Sound state) (outstanding : OnlyOutstanding state)
    (known : state.calls[id]? = some call) (here : call.phase = .sent) :
    OnlyOutstanding (state.linked id call) := by
  have early : call.phase.early = true := by
    rw [here]
    rfl
  have changed : (state.linked id call).calls[id]? = some { call with phase := call.afterLink } :=
    (getElem?_setCall known _).trans (if_pos rfl)
  intro other member
  rcases mem_linked_responses member with old | new
  · have different : other ≠ id := fun same => not_linked_of_early sound known early (same ▸ old)
    refine outstanding_frame (outstanding other old) ?_ fun given old => .inl old
    exact (getElem?_setCall known _).trans (if_neg different)
  · obtain ⟨rfl, request⟩ := new
    refine ⟨_, changed, (sound.callAt known).fresh early, ?_⟩
    cases callback : call.callback with
    | none => simp [Call.afterLink, request, callback]
    | some function =>
        intro given member same
        obtain ⟨kind, found, there, _, late⟩ := sound.handed given member
        rw [same] at there
        cases known.symm.trans there
        rw [early] at late
        contradiction

theorem outstanding_pass (outstanding : OnlyOutstanding state)
    (searched : state.receiver = .searched delivery) (pointed : state.callbackNode = .node id)
    (known : state.calls[id]? = some call) (live : call.live = true) :
    OnlyOutstanding (state.passed id call delivery) ↔ UnlinksFirst state .dispatch := by
  have lists := (passed_lists state id call delivery).1
  constructor
  · intro kept other found message received used there member
    cases searched.symm.trans received
    cases pointed.symm.trans used
    cases known.symm.trans there
    have still := kept id (lists ▸ member)
    have before := ((outstanding id member).known known).2
    by_cases synchronous : (delivery.isRespond && call.callback.isNone) = true
    · have respond := (Bool.and_eq_true_iff.mp synchronous).1
      have none_ := Option.isNone_iff_eq_none.mp (Bool.and_eq_true_iff.mp synchronous).2
      have after := (still.known (passed_signalled known synchronous)).2
      simp only [none_] at before after
      refine ⟨respond, none_, ?_⟩
      rcases before with linked | waiting
      · exact linked
      · rw [if_pos waiting] at after
        rcases after with linked | waiting <;> contradiction
    · have freed := (still.known (passed_freed known synchronous)).1
      contradiction
  · intro unlinks other member
    rw [lists] at member
    by_cases same : other = id
    · subst same
      obtain ⟨respond, none_, linked⟩ := unlinks _ _ _ searched pointed known member
      have synchronous : (delivery.isRespond && call.callback.isNone) = true := by
        rw [respond, none_]
        rfl
      refine ⟨_, passed_signalled known synchronous, live, ?_⟩
      simp only [none_, linked]
      exact .inl rfl
    · refine outstanding_frame (outstanding other member) (passed_other call delivery same)
        fun given new => ?_
      rw [passed_handed] at new
      split at new
      · rcases List.mem_append.mp new with old | last
        · exact .inl old
        · cases List.mem_singleton.mp last
          exact .inr (Ne.symm same)
      · exact .inl new

theorem unlinksFirst_fault (outstanding : OnlyOutstanding state) (faults : Faults state event) :
    UnlinksFirst state event := by
  cases faults with
  | link id => trivial
  | caller known late freed event_ =>
      rcases event_ with rfl | rfl | rfl
      · trivial
      · intro member
        rw [((outstanding _ member).known known).1] at freed
        contradiction
      · trivial
  | search received noEnd => trivial
  | dispatch searched used freed =>
      intro id call delivery _ pointed known member
      have live := ((outstanding id member).known known).1
      have unknown := freed id pointed
      simp [State.cmdIdOf, known, live] at unknown

/-- A step keeps the list right exactly when it unlinks first. -/
theorem onlyOutstanding_moves (sound : Sound state) (outstanding : OnlyOutstanding state)
    (moves : Moves state event next) : OnlyOutstanding next ↔ UnlinksFirst state event := by
  cases moves with
  | begin kind cmdId callback =>
      apply iff_of_true _ trivial
      intro other member
      obtain ⟨call, known, rest⟩ := outstanding other member
      apply outstanding_frame ⟨call, known, rest⟩
      · exact List.getElem?_append_left (List.getElem?_eq_some_iff.mp known).1
      · exact fun given old => .inl old
  | advance known advances => exact outstanding_advance sound outstanding known advances
  | retire known retires => exact outstanding_retire sound outstanding known retires
  | link known here => exact iff_of_true (outstanding_link sound outstanding known here) trivial
  | receive delivery idle => exact iff_of_true outstanding trivial
  | ignore received neither => exact iff_of_true outstanding trivial
  | hit received either hits =>
      apply iff_of_true _ trivial
      intro other member
      exact outstanding other (mem_afterHit_responses member)
  | miss received either live missed => exact iff_of_true outstanding trivial
  | skip searched null =>
      have nothing : UnlinksFirst state .dispatch := by
        intro id call delivery _ pointed
        rw [null] at pointed
        contradiction
      exact iff_of_true outstanding nothing
  | pass searched pointed known live => exact outstanding_pass outstanding searched pointed known live
  | fault faults => exact iff_of_true outstanding (unlinksFirst_fault outstanding faults)

/-- Every run keeps only outstanding requests linked exactly when each of its steps unlinks
first. -/
theorem onlyOutstanding_iff_unlinksFirst (isNull : Bool) (events : List Event) :
    Run.Always step OnlyOutstanding (initial isNull) events ↔
      Run.Along step UnlinksFirst (initial isNull) events := by
  apply Run.always_iff_along _ _ (sound_initial isNull)
  · intro id member
    contradiction
  · intro state event next sound outstanding taken
    exact onlyOutstanding_moves sound outstanding (moves_of_step taken)
  · intro state event next sound _ _ taken
    exact sound_moves sound (moves_of_step taken)

/-- A synchronous request that nobody answers. -/
private def timedOut : List Event :=
  [.begin .request cmdRequestInit none, .send 0, .link 0, .wait 0, .timeout 0]

/-- Its node is freed where it is linked. -/
theorem timeout_leaves_node_linked :
    ¬ Run.Always step OnlyOutstanding (initial true) timedOut := by
  intro always
  have outcome : (Run.run step (initial true) timedOut).map (fun state =>
      (state.responseCallbackList, (state.calls[0]?).map Call.live)) = some ([0], some false) := by
    decide +kernel
  obtain ⟨final, reached, lists⟩ := Option.map_eq_some_iff.mp outcome
  simp only [Prod.mk.injEq] at lists
  have member : 0 ∈ final.responseCallbackList := by
    rw [lists.1]
    simp
  obtain ⟨call, known, live, _⟩ := always _ final (List.prefix_refl _) reached 0 member
  have freed := lists.2
  rw [known, Option.map_some, live] at freed
  contradiction

end Outstanding

end Dwadelib.Ipc.Client
