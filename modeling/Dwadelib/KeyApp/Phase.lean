import Dwadelib.KeyApp.Tracking

namespace Dwadelib.KeyApp

/-! # The phases of a gesture

As long as no key of a gesture is up again, the keys have the first slots. The first release from
among several keys sets `press_cnt`, and from then on each released slot is clear of clicks until
the last release resets all of them. A click waits only in the first slot.
-/

variable {app next : App} {key before rest : List KeyInfo} {info slot stored : KeyInfo} {code : Nat}
  {value : KeyValue} {later now : Int} {held after : List Nat} {event : Event} {reports : List Report}

inductive Phase (app : App) : Prop where
  | idle (alone : app.pressCnt = 0) (up : ∀ info ∈ app.key, ¬ Live info)
      (unused : ∀ info ∈ app.key.tail, info = noKey)
  | gathering (alone : app.pressCnt = 0) (down : ∃ info ∈ app.key, Live info)
      (first : app.key.Pairwise fun earlier later => Live later → Live earlier)
      (unused : ∀ info ∈ app.key, ¬ Live info → info = noKey)
  | dissolving (again : app.pressCnt ≠ 0) (down : ∃ info ∈ app.key, Live info)
      (handled : ∀ info ∈ app.key, ¬ Live info → info.cnt = 0)

theorem pressNum_eq_zero : getKeyPressNum key = 0 ↔ ∀ info ∈ key, ¬ Live info := by
  rw [getKeyPressNum, List.countP_eq_zero]
  simp only [decide_eq_true_eq]

theorem exists_live (some : getKeyPressNum key ≠ 0) : ∃ info ∈ key, Live info := by
  by_contra none
  exact some (pressNum_eq_zero.mpr fun info member down => none ⟨info, member, down⟩)

theorem mem_pending : info ∈ pending key ↔ info ∈ key ∧ info.cnt ≠ 0 := by
  rw [pending, List.mem_filter, decide_eq_true_eq]

theorem mem_heldPending : info ∈ heldPending key ↔ info ∈ key ∧ info.cnt ≠ 0 ∧ Live info := by
  rw [heldPending, List.mem_filter, decide_eq_true_eq]

/-- Outside of the idle phase only keys that are down have clicks. -/
theorem Phase.handled (phase : Phase app) (down : ∃ info ∈ app.key, Live info) :
    ∀ info ∈ app.key, ¬ Live info → info.cnt = 0 := by
  intro info member up
  cases phase with
  | idle alone released unused =>
      obtain ⟨other, inside, live⟩ := down
      exact absurd live (released other inside)
  | gathering alone _ first unused => rw [unused info member up, noKey]
  | dissolving again _ handled => exact handled info member up

theorem Phase.pending_eq (phase : Phase app) (down : ∃ info ∈ app.key, Live info) :
    pending app.key = heldPending app.key := by
  have handled := phase.handled down
  apply List.filter_congr
  intro info member
  rw [decide_eq_decide]
  refine ⟨fun clicks => ⟨clicks, fun up => clicks ?_⟩, fun both => both.1⟩
  exact handled info member fun live => live up

theorem heldPending_nil (up : ∀ info ∈ key, ¬ Live info) : heldPending key = [] := by
  rw [List.eq_nil_iff_forall_not_mem]
  intro info member
  obtain ⟨inside, -, live⟩ := mem_heldPending.mp member
  exact up info inside live

/-- What a long press gathers are the keys that are down. -/
theorem Phase.gathered (phase : Phase app) :
    (pending app.key).take (heldPending app.key).length = heldPending app.key := by
  by_cases down : ∃ info ∈ app.key, Live info
  · rw [phase.pending_eq down, List.take_length]
  · rw [heldPending_nil fun info member live => down ⟨info, member, live⟩, List.length_nil, List.take_zero]

theorem phase_noKeys (alone : app.pressCnt = 0) (key : app.key = List.replicate maxKeys noKey) : Phase app := by
  refine .idle alone ?_ ?_
  · rw [key]
    intro info member
    rw [List.eq_of_mem_replicate member]
    exact fun live => live rfl
  · rw [key]
    intro info member
    exact List.eq_of_mem_replicate (List.mem_of_mem_tail member)

theorem phase_started : Phase started.app := phase_noKeys rfl rfl

theorem mem_middle : slot ∈ before ++ slot :: rest := List.mem_append_right _ List.mem_cons_self

/-- A slot other than the replaced one is still there. -/
theorem mem_replaced (member : info ∈ before ++ slot :: rest) (different : info ≠ slot) :
    info ∈ before ++ stored :: rest := by
  rw [List.mem_append, List.mem_cons] at member ⊢
  rcases member with left | same | right
  · exact .inl left
  · exact absurd same different
  · exact .inr (.inr right)

theorem forall_replaced {good : KeyInfo → Prop} (all : ∀ info ∈ before ++ slot :: rest, good info)
    (here : good stored) : ∀ info ∈ before ++ stored :: rest, good info := by
  simp only [List.mem_append, List.mem_cons, or_imp, forall_and, forall_eq] at all ⊢
  exact ⟨all.1, here, all.2.2⟩

/-- In the idle phase only the first slot can be told from an unused one. -/
theorem front_of_unused (table : key = before ++ slot :: rest) (unused : ∀ info ∈ key.tail, info = noKey)
    (used : slot ≠ noKey) : before = [] := by
  cases before with
  | nil => rfl
  | cons head tail =>
      rw [table] at unused
      exact absurd (unused slot mem_middle) used

/-- A key gets a slot: the first one, the next one, or any free one once keys have been released. -/
theorem Phase.taken (phase : Phase app) (table : app.key = before ++ slot :: rest)
    (up : slot.status = .keyRelease) (down : Live stored)
    (place : (∀ info ∈ before, Live info) ∨ slot.code ≠ 0)
    (alone : next.pressCnt = app.pressCnt) (key : next.key = before ++ stored :: rest) : Phase next := by
  have released : ¬ Live slot := fun live => live up
  have member : stored ∈ next.key := key ▸ mem_middle
  cases phase with
  | idle single others unused =>
      have front : before = [] := by
        rcases place with busy | real
        · cases before with
          | nil => rfl
          | cons head tail =>
              exact absurd (busy head List.mem_cons_self) (others head (table ▸ List.mem_cons_self))
        · exact front_of_unused table unused fun same => real (same ▸ rfl)
      subst front
      rw [table] at unused
      rw [List.nil_append] at key
      refine .gathering (alone.trans single) ⟨stored, member, down⟩ ?_ ?_
      · rw [key, List.pairwise_cons]
        refine ⟨fun _ _ _ => down, ?_⟩
        refine List.pairwise_of_forall_mem_list fun earlier inside later within live => ?_
        exact absurd live (others later (table ▸ List.mem_cons_of_mem _ within))
      · intro info inside released
        rw [key] at inside
        rcases List.mem_cons.mp inside with rfl | later
        · exact absurd down released
        · exact unused info later
  | gathering single live first unused =>
      have busy : ∀ info ∈ before, Live info := by
        refine place.resolve_right fun real => real ?_
        rw [unused slot (table ▸ mem_middle) released, noKey]
      rw [table, List.pairwise_append, List.pairwise_cons] at first
      obtain ⟨early, ⟨-, late⟩, -⟩ := first
      refine .gathering (alone.trans single) ⟨stored, member, down⟩ ?_ ?_
      · rw [key, List.pairwise_append, List.pairwise_cons]
        exact ⟨early, ⟨fun _ _ _ => down, late⟩, fun info inside _ _ _ => busy info inside⟩
      · rw [key]
        rw [table] at unused
        exact forall_replaced unused fun released => absurd down released
  | dissolving again live handled =>
      refine .dissolving (alone ▸ again) ⟨stored, member, down⟩ ?_
      rw [key]
      rw [table] at handled
      exact forall_replaced handled fun released => absurd down released

/-- A live slot is written again. -/
theorem Phase.kept (phase : Phase app) (table : app.key = before ++ slot :: rest) (live : Live slot)
    (down : Live stored) (alone : next.pressCnt = app.pressCnt) (key : next.key = before ++ stored :: rest) :
    Phase next := by
  have member : stored ∈ next.key := key ▸ mem_middle
  cases phase with
  | idle single others unused => exact absurd live (others slot (table ▸ mem_middle))
  | gathering single others first unused =>
      rw [table, List.pairwise_append, List.pairwise_cons] at first
      obtain ⟨early, ⟨-, late⟩, between⟩ := first
      have busy : ∀ info ∈ before, Live info := fun info inside => between info inside slot List.mem_cons_self live
      refine .gathering (alone.trans single) ⟨stored, member, down⟩ ?_ ?_
      · rw [key, List.pairwise_append, List.pairwise_cons]
        exact ⟨early, ⟨fun _ _ _ => down, late⟩, fun info inside _ _ _ => busy info inside⟩
      · rw [key]
        rw [table] at unused
        exact forall_replaced unused fun released => absurd down released
  | dissolving again others handled =>
      refine .dissolving (alone ▸ again) ⟨stored, member, down⟩ ?_
      rw [key]
      rw [table] at handled
      exact forall_replaced handled fun released => absurd down released

/-- One of several keys is released. -/
theorem Phase.dissolved (phase : Phase app) (table : app.key = before ++ slot :: rest) (live : Live slot)
    (several : 1 < getKeyPressNum app.key) (clear : stored.cnt = 0) (again : next.pressCnt ≠ 0)
    (key : next.key = before ++ stored :: rest) : Phase next := by
  have handled := phase.handled ⟨slot, table ▸ mem_middle, live⟩
  refine .dissolving again ?_ ?_
  · rw [table, pressNum_live live] at several
    obtain ⟨other, member, down⟩ := exists_live (show getKeyPressNum (before ++ rest) ≠ 0 by omega)
    refine ⟨other, ?_, down⟩
    rw [key, List.mem_append, List.mem_cons]
    exact (List.mem_append.mp member).imp_right .inr
  · rw [key]
    rw [table] at handled
    exact forall_replaced handled fun _ => clear

/-- The only key is released. -/
theorem Phase.released (phase : Phase app) (table : app.key = before ++ slot :: rest) (live : Live slot)
    (single : app.pressCnt = 0) (last : getKeyPressNum app.key = 1) (up : ¬ Live stored)
    (alone : next.pressCnt = 0) (key : next.key = before ++ stored :: rest) : Phase next := by
  rw [table, pressNum_live live, Nat.add_eq_right, pressNum_eq_zero] at last
  cases phase with
  | idle _ others unused => exact absurd live (others slot (table ▸ mem_middle))
  | gathering _ others first unused =>
      rw [table, List.pairwise_append] at first
      have front : before = [] := by
        rw [List.eq_nil_iff_forall_not_mem]
        intro info inside
        exact last info (List.mem_append_left _ inside) (first.2.2 info inside slot List.mem_cons_self live)
      subst front
      refine .idle alone ?_ ?_
      · rw [key]
        intro info inside
        rcases List.mem_cons.mp inside with rfl | later
        · exact up
        · exact last info later
      · rw [key]
        intro info inside
        exact unused info (table ▸ List.mem_cons_of_mem _ inside) (last info inside)
  | dissolving again => exact absurd single again

theorem forall_cleared {good : KeyInfo → Prop} :
    (∀ info ∈ key.map fun info => { info with cnt := 0 }, good info) ↔
      ∀ info ∈ key, good { info with cnt := 0 } :=
  List.forall_mem_map

theorem live_cleared (down : ∃ info ∈ key, Live info) :
    ∃ info ∈ key.map fun info => { info with cnt := 0 }, Live info := by
  obtain ⟨info, member, live⟩ := down
  exact ⟨{ info with cnt := 0 }, List.mem_map.mpr ⟨info, member, rfl⟩, live⟩

/-- All clicks are taken away. -/
theorem Phase.cleared (phase : Phase app) (alone : next.pressCnt = app.pressCnt)
    (key : next.key = app.key.map fun info => { info with cnt := 0 }) : Phase next := by
  cases phase with
  | idle single up unused =>
      refine .idle (alone.trans single) (by rw [key, forall_cleared]; exact up) ?_
      rw [key, ← List.map_tail, forall_cleared]
      intro info member
      rw [unused info member, noKey]
  | gathering single down first unused =>
      refine .gathering (alone.trans single) (key ▸ live_cleared down) ?_ ?_
      · rw [key, List.pairwise_map]
        exact first
      · rw [key, forall_cleared]
        intro info member up
        rw [unused info member up, noKey]
  | dissolving again down handled =>
      refine .dissolving (alone ▸ again) (key ▸ live_cleared down) ?_
      rw [key, forall_cleared]
      exact fun info member up => rfl

/-- Each change keeps the gesture in one of the phases. -/
theorem Phase.of_change (phase : Phase app) (reported : report held event = some after) (change : Change app event next reports) : Phase next := by
  cases change with
  | waited early => exact phase
  | clicked early table only up =>
      have pending := mem_pending.mp (only ▸ List.mem_singleton_self _)
      cases phase with
      | idle alone others unused =>
          obtain rfl := front_of_unused table unused fun same => pending.2 (same ▸ rfl)
          rw [table] at others unused
          exact .idle alone (forall_replaced others fun live => live up) unused
      | gathering alone down first unused =>
          exact absurd (Phase.handled (.gathering alone down first unused) down _ pending.1 fun live => live up)
            pending.2
      | dissolving again down handled => exact absurd (handled _ pending.1 fun live => live up) pending.2
  | longPressed late clicks => exact phase.cleared rfl rfl
  | repeated known => exact phase
  | unknown absent => exact phase
  | refused absent busy room =>
      cases phase with
      | idle alone up unused => exact .idle alone up unused
      | gathering alone down first unused => exact .gathering alone down first unused
      | dissolving again down handled => exact .dissolving again down handled
  | unplaced absent busy => exact phase
  | @pressedAgain before slot rest code later table same up room =>
      obtain ⟨⟨nonzero, -⟩, -⟩ := report_press.mp reported
      exact phase.taken table up live_keyPress (.inr (same ▸ nonzero)) rfl rfl
  | pressed table absent busy up room => exact phase.taken table up live_keyPress (.inl busy) rfl rfl
  | kept table same down =>
      exact phase.kept table (by rw [Live, down]; decide) live_keyRepeat rfl rfl
  | adopted table absent busy up => exact phase.taken table up live_keyRepeat (.inl busy) rfl rfl
  | combined table same down first several =>
      exact phase.dissolved table down several rfl (show getKeyPressNum app.key ≠ 0 by omega) rfl
  | dissolved table same down again several =>
      exact phase.dissolved table down several rfl (show getKeyPressNum app.key - 1 ≠ 0 by omega) rfl
  | ended table same down again last => exact phase_noKeys rfl rfl
  | released table same down alone last =>
      exact phase.released table down alone last (fun live => live rfl) alone rfl

end Dwadelib.KeyApp
