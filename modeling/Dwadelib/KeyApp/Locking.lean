import Dwadelib.KeyApp.Tracking

namespace Dwadelib.KeyApp

/-! # The wake lock counter

The counter goes up for each press and down for each release that is not refused. A press for
which there is no slot is refused only after it has been counted.
-/

variable {sys next : Sys} {event : Event}
  {reports : List Report} {events : List Event}

/-- One lock for each key that is down. -/
structure Balanced (sys : Sys) : Prop where
  locks : sys.app.lockCnt = getKeyPressNum sys.app.key
  nonnegative : 0 ≤ sys.app.lockCnt
  unlocked : sys.held = [] → sys.app.lockCnt = 0

theorem balanced_iff (tracking : Tracking sys.app sys.held) :
    Balanced sys ↔ sys.app.lockCnt = getKeyPressNum sys.app.key := by
  constructor
  · exact fun balanced => balanced.locks
  · intro locks
    exact {
      locks := locks
      nonnegative := by omega
      unlocked := by
        intro up
        have few := tracking.pressNum_le
        rw [up, List.length_nil] at few
        omega
    }

/-- The counter stays right in each change but in a refused press. -/
theorem locks_iff_admits {app after : App} {held afterHeld : List Nat} (complete : Complete app held)
    (locks : app.lockCnt = getKeyPressNum app.key) (reported : report held event = some afterHeld)
    (change : Change app event after reports) :
    after.lockCnt = getKeyPressNum after.key ↔ Admits app event := by
  cases change with
  | waited early => exact iff_of_true locks trivial
  | clicked early table only up =>
      refine iff_of_true ?_ trivial
      rw [locks, table, pressNum_up up, pressNum_up (by exact up)]
  | longPressed late clicks => exact iff_of_true (by rw [locks, pressNum_map]) trivial
  | repeated known => exact iff_of_true locks trivial
  | unknown absent => exact iff_of_true locks trivial
  | refused absent busy room =>
      refine iff_of_false ?_ (not_admits absent busy)
      dsimp only
      omega
  | unplaced absent busy =>
      obtain ⟨known, -⟩ := report_repeat.mp reported
      exact absurd absent (complete.found known)
  | @pressedAgain before slot rest code later table same up room =>
      refine iff_of_true ?_ ⟨slot, table ▸ List.mem_append_right _ List.mem_cons_self, .inl same⟩
      rw [locks, table, pressNum_up up, pressNum_live live_keyPress, Int.natCast_add]
      rfl
  | @pressed before slot rest code later table absent busy up room =>
      refine iff_of_true ?_ ⟨slot, table ▸ List.mem_append_right _ List.mem_cons_self, .inr up⟩
      rw [locks, table, pressNum_up up, pressNum_live live_keyPress, Int.natCast_add]
      rfl
  | kept table same down =>
      refine iff_of_true ?_ trivial
      rw [locks, table, pressNum_live (by rw [Live, down]; decide), pressNum_live live_keyRepeat]
  | adopted table absent busy up =>
      obtain ⟨known, -⟩ := report_repeat.mp reported
      exact absurd absent (complete.found known)
  | combined table same down first several =>
      refine iff_of_true ?_ trivial
      rw [locks, table, pressNum_live down, pressNum_up rfl]
      dsimp only
      omega
  | dissolved table same down again several =>
      refine iff_of_true ?_ trivial
      rw [locks, table, pressNum_live down, pressNum_up rfl]
      dsimp only
      omega
  | ended table same down again last =>
      refine iff_of_true ?_ trivial
      rw [locks, last, pressNum_noKeys]
      rfl
  | released table same down alone last =>
      refine iff_of_true ?_ trivial
      rw [locks, table, pressNum_live down, pressNum_up rfl]
      dsimp only
      omega

/-- The counter is right throughout a run exactly if no key is pressed while four others have the
slots, or while a counter is at the end of its range. -/
theorem locks_balanced_iff_admits (events : List Event) :
    Run.Always course (Run.Defined Balanced) (some started) events ↔
      Run.Along course (Run.OnState fun sys event => Admits sys.app event ∧ Room sys.app event) (some started)
        events := by
  refine Run.defined_iff_along Covered ?_ ?_ ?_ covered_started ((balanced_iff followed_started).mpr rfl)
  · intro sys event covered able
    exact advance_iff_room covered.tracking able
  · intro sys event next covered balanced advanced
    obtain ⟨reports, stepped⟩ := advance_eq_some.mp advanced
    obtain ⟨reported, change, kept⟩ := change_of_step covered.tracking stepped
    rw [balanced_iff kept]
    exact locks_iff_admits covered.complete balanced.locks reported change
  · intro sys event next covered balanced admitted advanced
    obtain ⟨reports, stepped⟩ := advance_eq_some.mp advanced
    exact covered.of_step stepped admitted

/-- The fifth of five keys that are pressed is counted and refused. -/
theorem fifth_key_unbalanced :
    ¬ Run.Always course (Run.Defined Balanced) (some started)
      [.key 30 .keyPress 1, .key 31 .keyPress 2, .key 32 .keyPress 3, .key 33 .keyPress 4,
        .key 34 .keyPress 5] := by
  intro always
  have balanced := always _ (some {
    app := {
      key := [⟨30, .keyPress, 1⟩, ⟨31, .keyPress, 1⟩, ⟨32, .keyPress, 1⟩, ⟨33, .keyPress, 1⟩]
      startTime := 4
      pressCnt := 0
      keysStatus := .singelKeyPress
      lockCnt := 5 }
    held := [34, 33, 32, 31, 30] }) (List.prefix_refl _) (by decide)
  exact absurd balanced.locks (by decide)

end Dwadelib.KeyApp
