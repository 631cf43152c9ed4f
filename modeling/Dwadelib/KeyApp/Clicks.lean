import Dwadelib.KeyApp.Phase
import Mathlib.Algebra.Ring.Nat

namespace Dwadelib.KeyApp

/-! # Every press is accounted for

With at most one key down at a time a press ends in a call of `single_key_handle`, in a long press
or in a count that is still in the table. What breaks this is a long timeout that comes when the
key is already up: it takes the count away and reports no key.
-/

variable {app next : App} {key before rest : List KeyInfo} {info slot stored : KeyInfo} {code limit : Nat}
  {value : KeyValue} {later now : Int} {held after : List Nat} {event : Event} {reports : List Report}
  {sys last : Sys}

/-- No more keys than the limit are down at a time. -/
def stepUpTo (limit : Nat) (sys : Sys) (event : Event) : Option (Sys × List Report) :=
  (step sys event).filter fun result => result.1.held.length ≤ limit

theorem stepUpTo_eq_some :
    stepUpTo limit sys event = some (last, reports) ↔
      step sys event = some (last, reports) ∧ last.held.length ≤ limit := by
  simp only [stepUpTo, Option.filter_eq_some_iff, decide_eq_true_eq]

/-- The kernel can report the event, and no more keys than the limit are then down. -/
def ReportableUpTo (limit : Nat) (sys : Sys) (event : Event) : Prop :=
  ((report sys.held event).any fun after => after.length ≤ limit) = true

instance decidableReportableUpTo (limit : Nat) (sys : Sys) (event : Event) : Decidable (ReportableUpTo limit sys event) :=
  inferInstanceAs (Decidable (_ = true))

theorem stepUpTo_iff_room (tracking : Tracking sys.app sys.held) (able : ReportableUpTo limit sys event) :
    (∃ next reports, stepUpTo limit sys event = some (next, reports)) ↔ Room sys.app event := by
  obtain ⟨after, reported, few⟩ := (Option.any_eq_true _ _).mp able
  rw [← step_iff_room tracking (Option.isSome_iff_exists.mpr ⟨after, reported⟩)]
  simp only [stepUpTo_eq_some]
  constructor
  · intro given
    obtain ⟨next, reports, stepped, -⟩ := given
    exact ⟨next, reports, stepped⟩
  · intro given
    obtain ⟨next, reports, stepped⟩ := given
    obtain rfl : after = next.held := Option.some.inj (reported.symm.trans (step_eq_some.mp stepped).1)
    exact ⟨next, reports, stepped, by simpa using few⟩

/-- The tracker with an observer of the reports, while no more keys than the limit are down. -/
def courseUpTo {γ : Type} (limit : Nat) (note : γ → Sys → Event → List Report → γ) :
    Option (Run.Watched Sys γ) → Event → Option (Option (Run.Watched Sys γ)) :=
  Run.orUndefined (fun watched event => ReportableUpTo limit watched.state event) (Run.watch (stepUpTo limit) note)

def clicks (key : List KeyInfo) : Nat := (key.map KeyInfo.cnt).sum

/-- The counts that `single_key_handle` was called with. -/
def countedClicks (reports : List Report) : Nat :=
  (reports.map fun
    | .singleKeyHandle _ _ cnt => cnt
    | _ => 0).sum

/-- How often a long press was printed. -/
def longPresses (reports : List Report) : Nat :=
  reports.countP fun
    | .longKey _ => true
    | _ => false

/-- A press counts unless it is refused. -/
def acceptedPresses (event : Event) (reports : List Report) : Nat :=
  match event with
  | .key code .keyPress _ =>
      if .discareRepeatEvent code .keyPress ∈ reports ∨ .tooManyKeysPressed ∈ reports then 0 else 1
  | _ => 0

structure Ledger where
  accepted : Nat
  counted : Nat
  longs : Nat
  deriving DecidableEq

def noteClicks (ledger : Ledger) (_ : Sys) (event : Event) (reports : List Report) : Ledger where
  accepted := ledger.accepted + acceptedPresses event reports
  counted := ledger.counted + countedClicks reports
  longs := ledger.longs + longPresses reports

def Accounted (watched : Run.Watched Sys Ledger) : Prop :=
  watched.seen.accepted = watched.seen.counted + watched.seen.longs + clicks watched.state.app.key

/-- A long timeout finds the keys that have clicks still down. -/
def HeldWhenLong (app : App) : Event → Prop
  | .timeout now =>
      keyLongPressTime ≤ now - app.startTime → ∀ info ∈ app.key, info.cnt ≠ 0 → info.status ≠ .keyRelease
  | _ => True

theorem clicks_middle : clicks (before ++ slot :: rest) = slot.cnt + clicks (before ++ rest) := by
  simp only [clicks, List.map_append, List.map_cons, List.sum_append, List.sum_cons]
  omega

theorem clicks_cons : clicks (info :: key) = info.cnt + clicks key := by
  rw [clicks, List.map_cons, List.sum_cons, clicks]

theorem clicks_none (none : ∀ info ∈ key, info.cnt = 0) : clicks key = 0 := by
  induction key with
  | nil => rfl
  | cons head tail ih =>
      rw [List.forall_mem_cons] at none
      rw [clicks_cons, none.1, ih none.2]

theorem clicks_heldPending_le : clicks (heldPending key) ≤ clicks key := by
  induction key with
  | nil => exact Nat.le_refl 0
  | cons head tail ih =>
      rw [heldPending, List.filter_cons, clicks_cons]
      split
      · rw [clicks_cons]
        exact Nat.add_le_add_left ih head.cnt
      · exact Nat.le_add_left_of_le ih

/-- All clicks are gathered by a long press exactly if their keys are down. -/
theorem clicks_heldPending :
    clicks (heldPending key) = clicks key ↔ ∀ info ∈ key, info.cnt ≠ 0 → Live info := by
  induction key with
  | nil => simp only [heldPending, List.filter_nil, List.not_mem_nil, false_imp_iff, implies_true]
  | cons head tail ih =>
      have below := @clicks_heldPending_le tail
      rw [clicks_cons, List.forall_mem_cons, ← ih]
      by_cases gathered : head.cnt ≠ 0 ∧ Live head
      · have front : heldPending (head :: tail) = head :: heldPending tail :=
          List.filter_cons_of_pos (by simpa using gathered)
        rw [front, clicks_cons, Nat.add_left_cancel_iff]
        exact ⟨fun all => ⟨fun _ => gathered.2, all⟩, fun both => both.2⟩
      · have front : heldPending (head :: tail) = heldPending tail :=
          List.filter_cons_of_neg (by simpa using gathered)
        rw [front]
        by_cases none : head.cnt = 0
        · rw [none, Nat.zero_add]
          exact ⟨fun same => ⟨fun some => absurd rfl some, same⟩, fun both => both.2⟩
        · exact iff_of_false (by omega) fun both => gathered ⟨none, both.1 none⟩

/-- A long press of one key accounts for its clicks, as one long press or as clicks. -/
theorem countedClicks_long (few : key.length ≤ 1) :
    countedClicks (longKeyReports key) + longPresses (longKeyReports key) = clicks key := by
  match key, few with
  | [], _ => rfl
  | [info], _ =>
      rw [longKeyReports]
      by_cases one : info.cnt = 1
      · rw [if_neg fun different => different one]
        rw [clicks_cons, one]
        rfl
      · rw [if_pos one]
        have counted : countedClicks
            [.longKeyHandle [info], .singleKeyHandle info.code info.status info.cnt] = 0 + (info.cnt + 0) := rfl
        have longs : longPresses
            [.longKeyHandle [info], .singleKeyHandle info.code info.status info.cnt] = 0 := rfl
        rw [counted, longs, clicks_cons, Nat.zero_add, Nat.add_zero]
        rfl

theorem countedClicks_single {cnt : Nat} : countedClicks [.singleKeyHandle code value cnt] = cnt :=
  Nat.add_zero cnt

/-- The click that a new key finds in the idle phase is that of the first slot. -/
theorem flushed_idle (up : ∀ info ∈ slot :: rest, ¬ Live info) (unused : ∀ info ∈ rest, info = noKey) :
    countedClicks (flushed (slot :: rest)) = slot.cnt ∧ longPresses (flushed (slot :: rest)) = 0 ∧
      .tooManyKeysPressed ∉ flushed (slot :: rest) ∧
      ∀ code value, .discareRepeatEvent code value ∉ flushed (slot :: rest) := by
  have others : pending rest = [] := by
    rw [List.eq_nil_iff_forall_not_mem]
    intro info member
    obtain ⟨inside, clicked⟩ := mem_pending.mp member
    exact clicked (unused info inside ▸ rfl)
  rw [flushed, if_pos (pressNum_eq_zero.mpr up), pending, List.filter_cons]
  rw [pending] at others
  by_cases clicked : slot.cnt = 0
  · rw [if_neg (by simpa using clicked), others, clicked]
    exact ⟨rfl, rfl, List.not_mem_nil, fun _ _ => List.not_mem_nil⟩
  · rw [if_pos (by simpa using clicked)]
    refine ⟨rfl, rfl, ?_, ?_⟩
    · simp
    · simp

/-- At most one key is down, and there is no combination. -/
structure Single (sys : Sys) : Prop where
  covered : Covered sys
  phase : Phase sys.app
  alone : sys.app.pressCnt = 0
  one : sys.held.length ≤ 1

theorem Single.pressNum_le (single : Single sys) : getKeyPressNum sys.app.key ≤ 1 :=
  Nat.le_trans single.covered.tracking.pressNum_le single.one

theorem alone_of_change (alone : app.pressCnt = 0) (few : getKeyPressNum app.key ≤ 1)
    (change : Change app event next reports) : next.pressCnt = 0 := by
  cases change with
  | waited => exact alone
  | clicked => exact alone
  | longPressed => exact alone
  | repeated => exact alone
  | unknown => exact alone
  | refused => exact alone
  | unplaced => exact alone
  | pressedAgain => exact alone
  | pressed => exact alone
  | kept => exact alone
  | adopted => exact alone
  | combined table same down first several => omega
  | dissolved table same down again several => exact absurd alone again
  | ended => rfl
  | released => exact alone

theorem single_started : Single started where
  covered := covered_started
  phase := phase_started
  alone := rfl
  one := Nat.zero_le 1

theorem Single.of_step (single : Single sys) (stepped : stepUpTo 1 sys event = some (last, reports)) :
    Single last ∧ report sys.held event = some last.held ∧ Change sys.app event last.app reports ∧
      Admits sys.app event := by
  obtain ⟨stepped, one⟩ := stepUpTo_eq_some.mp stepped
  have covered := single.covered
  obtain ⟨reported, change, kept⟩ := change_of_step covered.tracking stepped
  have admitted := admits_of_few covered.tracking covered.complete reported (Nat.le_trans one (by decide))
  refine ⟨?_, reported, change, admitted⟩
  exact {
    covered := covered.of_step stepped admitted
    phase := single.phase.of_change reported change
    alone := alone_of_change single.alone single.pressNum_le change
    one := one
  }

theorem length_heldPending_le : (heldPending key).length ≤ getKeyPressNum key := by
  rw [← countP_heldPending, getKeyPressNum]
  refine List.countP_mono_left fun info member both => ?_
  simp only [decide_eq_true_eq] at both ⊢
  exact both.2

theorem silent (accepted : acceptedPresses event reports = 0) (counted : countedClicks reports = 0)
    (longs : longPresses reports = 0) (same : clicks key = clicks rest) :
    acceptedPresses event reports + clicks key = countedClicks reports + longPresses reports + clicks rest := by
  omega

/-- A press in the idle phase ends the waiting click and starts the next one. -/
theorem clicks_pressed (single : Single sys) (up : getKeyPressNum sys.app.key = 0)
    (table : sys.app.key = before ++ slot :: rest) (busy : ∀ info ∈ before, Live info) :
    acceptedPresses (.key code .keyPress later) (flushed sys.app.key) + clicks sys.app.key =
      countedClicks (flushed sys.app.key) + longPresses (flushed sys.app.key) +
        clicks (before ++ { code, status := .keyPress, cnt := 1 } :: rest) := by
  have released := pressNum_eq_zero.mp up
  rcases single.phase with ⟨_, others, unused⟩ | ⟨_, ⟨info, member, down⟩, _, _⟩ | ⟨_, ⟨info, member, down⟩, _⟩
  · have front : before = [] := by
      rw [List.eq_nil_iff_forall_not_mem]
      intro info member
      exact released info (table ▸ List.mem_append_left _ member) (busy info member)
    subst front
    rw [table] at others unused ⊢
    obtain ⟨counted, longs, kept, fresh⟩ := flushed_idle others unused
    have accepted : acceptedPresses (.key code .keyPress later) (flushed (slot :: rest)) = 1 :=
      if_neg fun refused => refused.elim (fresh _ _) kept
    have none : clicks rest = 0 := clicks_none fun info member => unused info member ▸ rfl
    rw [List.nil_append, List.nil_append, accepted, counted, longs, clicks_cons, clicks_cons, none]
    dsimp only
    omega
  · exact absurd down (released info member)
  · exact absurd down (released info member)

/-- What the reports of a change and the table after it account for. -/
theorem clicks_of_change (single : Single sys) (reported : report sys.held event = some after)
    (few : after.length ≤ 1) (change : Change sys.app event next reports) (admitted : Admits sys.app event) :
    acceptedPresses event reports + clicks sys.app.key =
        countedClicks reports + longPresses reports + clicks next.key ↔ HeldWhenLong sys.app event := by
  have tracking := single.covered.tracking
  have complete := single.covered.complete
  have alone := single.alone
  have one := single.pressNum_le
  cases change with
  | waited early =>
      refine iff_of_true (silent rfl rfl rfl rfl) ?_
      intro late info member clicked
      rcases early with early | quiet
      · omega
      · exact absurd (quiet ▸ mem_pending.mpr ⟨member, clicked⟩) List.not_mem_nil
  | clicked early table only up =>
      refine iff_of_true ?_ fun late => absurd late (by omega)
      rw [table, clicks_middle, clicks_middle, countedClicks_single]
      change 0 + _ = _ + 0 + (0 + _)
      omega
  | longPressed late clicked =>
      have gathered := countedClicks_long (Nat.le_trans length_heldPending_le one)
      have nothing : clicks (sys.app.key.map fun info => { info with cnt := 0 }) = 0 :=
        clicks_none (forall_cleared.mpr fun _ _ => rfl)
      rw [single.phase.gathered, gathered, nothing, HeldWhenLong, ← clicks_heldPending]
      change 0 + _ = _ + 0 ↔ _
      exact ⟨fun same _ => by omega, fun same => by rw [same late, Nat.zero_add, Nat.add_zero]⟩
  | repeated known => exact iff_of_true (silent rfl rfl rfl rfl) trivial
  | unknown absent => exact iff_of_true (silent rfl rfl rfl rfl) trivial
  | refused absent busy room =>
      have all : getKeyPressNum sys.app.key = maxKeys := by
        rw [getKeyPressNum, ← tracking.size, List.countP_eq_length]
        intro info member
        simpa using busy info member
      exact absurd all (by rw [maxKeys]; omega)
  | unplaced absent busy =>
      obtain ⟨known, -⟩ := report_repeat.mp reported
      exact absurd absent (complete.found known)
  | pressedAgain table same up room =>
      refine iff_of_true ?_ trivial
      rw [table, clicks_middle, clicks_middle]
      change 1 + (_ + _) = 0 + 0 + (_ + 1 + _)
      omega
  | pressed table absent busy up room =>
      obtain ⟨-, rfl⟩ := report_press.mp reported
      rw [List.length_cons] at few
      have idle := tracking.pressNum_le
      exact iff_of_true (clicks_pressed single (by omega) table busy) trivial
  | kept table same down =>
      refine iff_of_true (silent rfl rfl rfl ?_) trivial
      rw [table, clicks_middle, clicks_middle]
  | adopted table absent busy up =>
      obtain ⟨known, -⟩ := report_repeat.mp reported
      exact absurd absent (complete.found known)
  | combined table same down first several => omega
  | dissolved table same down again several => exact absurd alone again
  | ended table same down again last => exact absurd alone again
  | released table same down alone last =>
      refine iff_of_true (silent rfl ?_ ?_ ?_) trivial
      · split
        · rfl
        · rfl
      · split
        · rfl
        · rfl
      · rw [table, clicks_middle, clicks_middle]

/-- With one key at a time the presses are accounted for throughout a run exactly if each long
timeout finds the clicked key still down, and each press the counters within their range. -/
theorem clicks_accounted_iff_held (events : List Event) :
    Run.Always (courseUpTo 1 noteClicks) (Run.Defined Accounted) (some ⟨started, ⟨0, 0, 0⟩⟩) events ↔
      Run.Along (courseUpTo 1 noteClicks)
        (Run.OnState fun watched event => HeldWhenLong watched.state.app event ∧ Room watched.state.app event)
        (some ⟨started, ⟨0, 0, 0⟩⟩) events := by
  refine Run.defined_iff_along (fun watched => Single watched.state) ?_ ?_ ?_ single_started rfl
  · intro watched event single able
    rw [Run.watch_exists]
    exact stepUpTo_iff_room single.covered.tracking able
  · intro watched event next single accounted taken
    obtain ⟨sys, reports, stepped, rfl⟩ := Run.watch_eq_some.mp taken
    obtain ⟨kept, reported, change, admitted⟩ := single.of_step stepped
    rw [← clicks_of_change single reported kept.one change admitted]
    simp only [Accounted, noteClicks] at accounted ⊢
    omega
  · intro watched event next single accounted held taken
    obtain ⟨sys, reports, stepped, rfl⟩ := Run.watch_eq_some.mp taken
    exact (single.of_step stepped).1

/-- The key goes up just before the long press time is over, and the next timeout comes just after. -/
theorem late_click_lost :
    ¬ Run.Always (courseUpTo 1 noteClicks) (Run.Defined Accounted) (some ⟨started, ⟨0, 0, 0⟩⟩)
      [.key 30 .keyPress 1000000, .key 30 .keyRelease 3999000, .timeout 4001000] := by
  intro always
  have accounted := always _ (some {
    state := {
      app := {
        key := [⟨30, .keyRelease, 0⟩, noKey, noKey, noKey]
        startTime := 1000000
        pressCnt := 0
        keysStatus := .longKeyPress
        lockCnt := 0 }
      held := [] }
    seen := { accepted := 1, counted := 0, longs := 0 } }) (List.prefix_refl _) (by decide)
  rw [Run.Defined, Accounted] at accounted
  exact absurd accounted (by decide)

end Dwadelib.KeyApp
