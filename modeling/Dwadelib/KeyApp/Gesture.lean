import Dwadelib.KeyApp.Clicks

namespace Dwadelib.KeyApp

/-! # One report for a gesture

A gesture lasts from a key going down while none is down until no key is down again. A long press
takes the counts of its keys away, but `press_cnt` does not tell of it; and the keys that are left
of a combination still have counts for a long press.
-/

variable {app next : App} {key before rest : List KeyInfo} {info slot : KeyInfo} {code : Nat}
  {later now : Int} {held after : List Nat} {event : Event} {reports : List Report} {sys last : Sys}

/-- Of the current or the last gesture: what `multiple_key_handler` has printed, with the keys that
were down just before, and how often `long_key_handle` had a key to report. -/
structure GestureNotes where
  combinations : List (List Nat × List Nat)
  longs : Nat
  deriving DecidableEq

def printedCodes (reports : List Report) : List (List Nat) :=
  reports.filterMap fun
    | .multipleKeyHandler _ printed => some printed
    | _ => none

def longReports (reports : List Report) : Nat :=
  reports.countP fun
    | .longKeyHandle keyInfo => keyInfo ≠ []
    | _ => false

/-- A press while no key is down begins the next gesture. -/
def begins (sys : Sys) : Event → Prop
  | .key _ .keyPress _ => sys.held = []
  | _ => False

instance decidableBegins (sys : Sys) : (event : Event) → Decidable (begins sys event)
  | .timeout _ => instDecidableFalse
  | .key _ .keyRelease _ => instDecidableFalse
  | .key _ .keyPress _ => inferInstanceAs (Decidable (sys.held = []))
  | .key _ .keyRepeat _ => instDecidableFalse

def noteGesture (notes : GestureNotes) (sys : Sys) (event : Event) (reports : List Report) : GestureNotes :=
  let earlier : GestureNotes := if begins sys event then { combinations := [], longs := 0 } else notes
  { combinations := earlier.combinations ++ (printedCodes reports).map fun printed => (printed, sys.held)
    longs := earlier.longs + longReports reports }

/-- At most one combination, with exactly the keys that were down, and no long press beside it. -/
structure ReportedOnce (notes : GestureNotes) : Prop where
  once : notes.combinations.length ≤ 1
  apart : notes.combinations = [] ∨ notes.longs = 0
  exact : ∀ combination ∈ notes.combinations, combination.1.Perm combination.2

/-- A long timeout after a combination finds no key that is down with clicks; and when the first of
several keys is released, all of them have clicks. -/
def Consistent (app : App) : Event → Prop
  | .timeout now =>
      keyLongPressTime ≤ now - app.startTime → app.pressCnt ≠ 0 →
        ∀ info ∈ app.key, info.cnt ≠ 0 → info.status = .keyRelease
  | .key _ .keyRelease _ =>
      app.pressCnt = 0 → 1 < getKeyPressNum app.key →
        ∀ info ∈ app.key, info.status ≠ .keyRelease → info.cnt ≠ 0
  | _ => True

/-- Before a combination a long press has left a key without clicks; after it there is one. -/
structure Followup (sys : Sys) (notes : GestureNotes) : Prop where
  covered : Covered sys
  phase : Phase sys.app
  gathering : sys.held ≠ [] → sys.app.pressCnt = 0 →
    notes.combinations = [] ∧ (notes.longs ≠ 0 → ∃ info ∈ sys.app.key, Live info ∧ info.cnt = 0)
  dissolving : sys.app.pressCnt ≠ 0 → notes.combinations ≠ []

theorem printedCodes_flushed : printedCodes (flushed key) = [] := by
  rw [flushed]
  split
  · cases (pending key).head? with
    | none => rfl
    | some info => rfl
  · rfl

theorem longReports_flushed : longReports (flushed key) = 0 := by
  rw [flushed]
  split
  · cases (pending key).head? with
    | none => rfl
    | some info => rfl
  · rfl

theorem printedCodes_long : printedCodes (longKeyReports key) = [] := by
  match key with
  | [] => rfl
  | [info] =>
      rw [longKeyReports]
      split
      · rfl
      · rfl
  | first :: second :: rest => rfl

theorem longReports_long : longReports (longKeyReports key) = 0 ↔ key = [] := by
  match key with
  | [] => exact iff_of_true rfl rfl
  | [info] =>
      refine iff_of_false ?_ (by simp)
      rw [longKeyReports]
      split
      · simp [longReports]
      · simp [longReports]
  | first :: second :: rest =>
      refine iff_of_false ?_ (by simp)
      simp [longKeyReports, longReports]

theorem heldPending_sublist_live : (heldPending key).Sublist (key.filter fun info => Live info) := by
  apply List.monotone_filter_right
  intro info both
  simp only [decide_eq_true_eq] at both ⊢
  exact both.2

/-- The codes with clicks are those of all keys that are down exactly if all of these have clicks. -/
theorem codes_perm_iff (tracking : Tracking app held) (complete : Complete app held) :
    ((heldPending app.key).map KeyInfo.code).Perm held ↔ ∀ info ∈ app.key, Live info → info.cnt ≠ 0 := by
  have live := tracking.tracked_perm complete
  constructor
  · intro codes info member down
    have length := (codes.trans live.symm).length_eq
    rw [List.length_map, tracked, List.length_map] at length
    have same := heldPending_sublist_live.eq_of_length length
    have inside : info ∈ heldPending app.key := by
      rw [same, List.mem_filter, decide_eq_true_eq]
      exact ⟨member, down⟩
    exact (mem_heldPending.mp inside).2.1
  · intro clicked
    have same : heldPending app.key = app.key.filter fun info => Live info := by
      apply List.filter_congr
      intro info member
      rw [decide_eq_decide]
      exact ⟨fun both => both.2, fun down => ⟨clicked info member down, down⟩⟩
    rw [same]
    exact live

/-- What `multiple_key_handler` prints are the codes with clicks, the last slot first. -/
theorem printedCodes_multiple (tracking : Tracking app held) (phase : Phase app)
    (several : 1 < getKeyPressNum app.key) :
    printedCodes (multipleKeyHandler app (getKeyPressNum app.key)) =
      [((heldPending app.key).map KeyInfo.code).reverse] := by
  have down := exists_live (show getKeyPressNum app.key ≠ 0 by omega)
  have few : getKeyPressNum app.key ≤ 4 := by
    have all : getKeyPressNum app.key ≤ app.key.length := List.countP_le_length
    rw [tracking.size] at all
    exact all
  rw [multipleKeyHandler_spec several few, phase.pending_eq down,
    List.take_of_length_le length_heldPending_le]
  rfl

theorem longReports_multiple {cnt : Nat} : longReports (multipleKeyHandler app cnt) = 0 := rfl

section Steps

variable {notes : GestureNotes}

theorem noteGesture_silent (within : ¬ begins sys event) (printed : printedCodes reports = [])
    (longs : longReports reports = 0) : noteGesture notes sys event reports = notes := by
  rw [noteGesture, if_neg within, printed, longs, List.map_nil, List.append_nil, Nat.add_zero]

theorem noteGesture_begins (first : begins sys event) (printed : printedCodes reports = [])
    (longs : longReports reports = 0) :
    noteGesture notes sys event reports = { combinations := [], longs := 0 } := by
  rw [noteGesture, if_pos first, printed, longs]
  rfl

theorem reportedOnce_nothing : ReportedOnce { combinations := [], longs := 0 } where
  once := Nat.zero_le 1
  apart := .inl rfl
  exact := by
    intro combination member
    contradiction

/-- Some key is down exactly if some slot is live. -/
theorem Covered.exists_live (covered : Covered sys) (some : sys.held ≠ []) :
    ∃ info ∈ sys.app.key, Live info := by
  obtain ⟨code, known⟩ := List.exists_mem_of_ne_nil _ some
  obtain ⟨info, member, rfl⟩ := covered.complete code known
  exact ⟨info, member, (covered.tracking.agrees info member).mpr known⟩

theorem Covered.held_ne_nil (covered : Covered sys) (member : info ∈ sys.app.key) (live : Live info) :
    sys.held ≠ [] :=
  List.ne_nil_of_mem ((covered.tracking.agrees info member).mp live)

/-- A live slot without clicks stays when another slot, or the same one with no more clicks, is written. -/
theorem unclicked_replaced {stored : KeyInfo} (table : key = before ++ slot :: rest)
    (some : ∃ info ∈ key, Live info ∧ info.cnt = 0) (kept : Live slot → Live stored ∧ stored.cnt = slot.cnt) :
    ∃ info ∈ before ++ stored :: rest, Live info ∧ info.cnt = 0 := by
  obtain ⟨info, member, live, none⟩ := some
  rw [table] at member
  by_cases same : info = slot
  · subst same
    exact ⟨stored, mem_middle, (kept live).1, (kept live).2.trans none⟩
  · exact ⟨info, mem_replaced member same, live, none⟩

/-- A timeout begins no gesture and prints no combination. -/
theorem noteGesture_long : noteGesture notes sys (.timeout now) (longKeyReports key) =
    { combinations := notes.combinations, longs := notes.longs + longReports (longKeyReports key) } := by
  rw [noteGesture, if_neg (show ¬ begins sys (.timeout now) from id), printedCodes_long, List.map_nil,
    List.append_nil]

/-- A release begins no gesture, and the combination is noted with the keys that are down. -/
theorem noteGesture_combined (tracking : Tracking sys.app sys.held) (phase : Phase sys.app)
    (several : 1 < getKeyPressNum sys.app.key) :
    noteGesture notes sys (.key code .keyRelease later) (multipleKeyHandler sys.app (getKeyPressNum sys.app.key)) =
      { combinations :=
          notes.combinations ++ [(((heldPending sys.app.key).map KeyInfo.code).reverse, sys.held)]
        longs := notes.longs } := by
  rw [noteGesture, if_neg (show ¬ begins sys (.key code .keyRelease later) from id),
    printedCodes_multiple tracking phase several, longReports_multiple]
  rfl

/-- What a long timeout reports beside a combination. -/
theorem reportedOnce_long (followup : Followup sys notes) (good : ReportedOnce notes)
    (late : keyLongPressTime ≤ now - sys.app.startTime) :
    ReportedOnce (noteGesture notes sys (.timeout now) (longKeyReports (heldPending sys.app.key))) ↔
      Consistent sys.app (.timeout now) := by
  have none : heldPending sys.app.key = [] ↔ ∀ info ∈ sys.app.key, info.cnt ≠ 0 → info.status = .keyRelease := by
    rw [List.eq_nil_iff_forall_not_mem]
    simp only [mem_heldPending, Live, not_and, not_not]
  have separate : Consistent sys.app (.timeout now) ↔ (sys.app.pressCnt ≠ 0 → heldPending sys.app.key = []) := by
    rw [none]
    exact ⟨fun consistent => consistent late, fun consistent _ => consistent⟩
  rw [noteGesture_long, separate, ← longReports_long]
  constructor
  · intro once again
    have longs := once.apart.resolve_left (followup.dissolving again)
    dsimp only at longs
    omega
  · intro quiet
    refine { once := good.once, apart := ?_, exact := good.exact }
    by_cases alone : sys.app.pressCnt = 0
    · by_cases up : sys.held = []
      · have nothing : longReports (longKeyReports (heldPending sys.app.key)) = 0 :=
          longReports_long.mpr (heldPending_nil fun info member live =>
            followup.covered.held_ne_nil member live up)
        rw [nothing]
        exact good.apart
      · exact .inl (followup.gathering up alone).1
    · rw [quiet alone]
      exact good.apart

theorem followup_long (followup : Followup sys notes) (covered : Covered last) (phase : Phase last.app)
    (cleared : last.app.key = sys.app.key.map fun info => { info with cnt := 0 })
    (held : last.held = sys.held) (alone : last.app.pressCnt = sys.app.pressCnt) :
    Followup last (noteGesture notes sys (.timeout now) (longKeyReports (heldPending sys.app.key))) where
  covered := covered
  phase := phase
  gathering := by
    intro down single
    rw [held] at down
    refine ⟨?_, fun _ => ?_⟩
    · rw [noteGesture_long]
      exact (followup.gathering down (alone ▸ single)).1
    · obtain ⟨info, member, live⟩ := followup.covered.exists_live down
      rw [cleared]
      exact ⟨{ info with cnt := 0 }, List.mem_map.mpr ⟨info, member, rfl⟩, live, rfl⟩
  dissolving := by
    intro again
    rw [noteGesture_long]
    exact followup.dissolving (alone ▸ again)

/-- What the first release from among several keys reports. -/
theorem reportedOnce_combined (followup : Followup sys notes) (alone : sys.app.pressCnt = 0)
    (several : 1 < getKeyPressNum sys.app.key) :
    ReportedOnce (noteGesture notes sys (.key code .keyRelease later)
        (multipleKeyHandler sys.app (getKeyPressNum sys.app.key))) ↔
      Consistent sys.app (.key code .keyRelease later) := by
  have covered := followup.covered
  obtain ⟨info, member, live⟩ := exists_live (show getKeyPressNum sys.app.key ≠ 0 by omega)
  obtain ⟨none, before⟩ := followup.gathering (covered.held_ne_nil member live) alone
  have consistent : Consistent sys.app (.key code .keyRelease later) ↔
      ∀ info ∈ sys.app.key, Live info → info.cnt ≠ 0 :=
    ⟨fun all => all alone several, fun all _ _ => all⟩
  rw [noteGesture_combined covered.tracking followup.phase several, none, List.nil_append, consistent,
    ← codes_perm_iff covered.tracking covered.complete]
  constructor
  · intro once
    exact (List.reverse_perm _).symm.trans (once.exact _ List.mem_cons_self)
  · intro codes
    refine { once := Nat.le_refl 1, apart := .inr ?_, exact := ?_ }
    · by_contra longs
      obtain ⟨info, member, live, clickless⟩ := before longs
      exact (codes_perm_iff covered.tracking covered.complete).mp codes info member live clickless
    · intro combination member
      rw [List.mem_singleton.mp member]
      exact (List.reverse_perm _).trans codes

theorem followup_combined (followup : Followup sys notes) (covered : Covered last) (phase : Phase last.app)
    (dissolving : last.app.pressCnt ≠ 0) (several : 1 < getKeyPressNum sys.app.key) :
    Followup last (noteGesture notes sys (.key code .keyRelease later)
      (multipleKeyHandler sys.app (getKeyPressNum sys.app.key))) where
  covered := covered
  phase := phase
  gathering := fun _ alone => absurd alone dissolving
  dissolving := by
    intro _
    rw [noteGesture_combined followup.covered.tracking followup.phase several]
    exact List.append_ne_nil_of_right_ne_nil _ (List.cons_ne_nil _ _)

/-- A key goes down. -/
theorem followup_pressed {stored : KeyInfo} (followup : Followup sys notes) (good : ReportedOnce notes)
    (table : sys.app.key = before ++ slot :: rest) (up : slot.status = .keyRelease)
    (printed : printedCodes reports = []) (longs : longReports reports = 0)
    (key : last.app.key = before ++ stored :: rest) (alone : last.app.pressCnt = sys.app.pressCnt)
    (covered : Covered last) (phase : Phase last.app) :
    ReportedOnce (noteGesture notes sys (.key code .keyPress later) reports) ∧
      Followup last (noteGesture notes sys (.key code .keyPress later) reports) := by
  by_cases first : sys.held = []
  · have single : sys.app.pressCnt = 0 := by
      by_contra again
      rcases followup.phase with ⟨alone, _, _⟩ | ⟨alone, _, _, _⟩ | ⟨_, ⟨info, member, live⟩, _⟩
      · exact again alone
      · exact again alone
      · exact followup.covered.held_ne_nil member live first
    rw [noteGesture_begins (show begins sys (.key code .keyPress later) from first) printed longs]
    refine ⟨reportedOnce_nothing, ?_⟩
    exact {
      covered := covered
      phase := phase
      gathering := fun _ _ => ⟨rfl, fun some => absurd rfl some⟩
      dissolving := fun again => absurd (alone.trans single) again
    }
  · rw [noteGesture_silent (show ¬ begins sys (.key code .keyPress later) from first) printed longs]
    refine ⟨good, ?_⟩
    exact {
      covered := covered
      phase := phase
      gathering := by
        intro _ single
        obtain ⟨none, before⟩ := followup.gathering first (alone ▸ single)
        refine ⟨none, fun some => ?_⟩
        rw [key]
        exact unclicked_replaced table (before some) fun live => absurd up live
      dissolving := fun again => followup.dissolving (alone ▸ again)
    }

/-- Notes that stay as they are. -/
theorem followup_silent (followup : Followup sys notes) (good : ReportedOnce notes)
    (within : ¬ begins sys event) (printed : printedCodes reports = []) (longs : longReports reports = 0)
    (covered : Covered last) (phase : Phase last.app)
    (gathering : last.held ≠ [] → last.app.pressCnt = 0 → sys.held ≠ [] ∧ sys.app.pressCnt = 0 ∧
      ((∃ info ∈ sys.app.key, Live info ∧ info.cnt = 0) → ∃ info ∈ last.app.key, Live info ∧ info.cnt = 0))
    (dissolving : last.app.pressCnt ≠ 0 → sys.app.pressCnt ≠ 0) :
    ReportedOnce (noteGesture notes sys event reports) ∧ Followup last (noteGesture notes sys event reports) := by
  rw [noteGesture_silent within printed longs]
  refine ⟨good, ?_⟩
  exact {
    covered := covered
    phase := phase
    gathering := by
      intro down alone
      obtain ⟨earlier, single, kept⟩ := gathering down alone
      obtain ⟨none, before⟩ := followup.gathering earlier single
      exact ⟨none, fun some => kept (before some)⟩
    dissolving := fun again => followup.dissolving (dissolving again)
  }

theorem once_of_consistent (consistent : Consistent sys.app event)
    (kept : ReportedOnce (noteGesture notes sys event reports) ∧
      Followup last (noteGesture notes sys event reports)) :
    (ReportedOnce (noteGesture notes sys event reports) ↔ Consistent sys.app event) ∧
      (Consistent sys.app event → Followup last (noteGesture notes sys event reports)) :=
  ⟨iff_of_true kept.1 consistent, fun _ => kept.2⟩

theorem Covered.erase_last (covered : Covered sys) (last : getKeyPressNum sys.app.key = 1)
    (known : code ∈ sys.held) : sys.held.erase code = [] := by
  rw [covered.tracking.pressNum_eq covered.complete, List.length_eq_one_iff] at last
  obtain ⟨only, single⟩ := last
  rw [single] at known ⊢
  rw [List.mem_singleton.mp known, List.erase_cons_head]

/-- A change reports a gesture once more exactly if it is not a consistent one. -/
theorem followup_of_change (followup : Followup sys notes) (good : ReportedOnce notes)
    (covered : Covered last) (admitted : Admits sys.app event)
    (reported : report sys.held event = some last.held) (change : Change sys.app event last.app reports) :
    (ReportedOnce (noteGesture notes sys event reports) ↔ Consistent sys.app event) ∧
      (Consistent sys.app event → Followup last (noteGesture notes sys event reports)) := by
  obtain ⟨app, held⟩ := last
  have phase : Phase app := followup.phase.of_change reported change
  have tracking := followup.covered.tracking
  have complete := followup.covered.complete
  dsimp only at reported change
  cases change with
  | @waited now early =>
      cases reported
      have quiet : Consistent sys.app (.timeout now) := by
        intro late _ info member clicked
        rcases early with early | nothing
        · omega
        · exact absurd (nothing ▸ mem_pending.mpr ⟨member, clicked⟩) List.not_mem_nil
      exact once_of_consistent quiet (followup_silent followup good id rfl rfl covered phase
        (fun down alone => ⟨down, alone, id⟩) id)
  | @clicked now before slot rest early table only up =>
      cases reported
      have clicked := mem_pending.mp (only ▸ List.mem_singleton_self slot)
      have none : sys.held = [] := by
        by_contra some
        exact clicked.2 (followup.phase.handled (followup.covered.exists_live some) slot clicked.1
          fun live => live up)
      exact once_of_consistent (fun late => absurd late (by omega))
        (followup_silent followup good id rfl rfl covered phase (fun down _ => absurd none down) id)
  | @longPressed now late clicks =>
      cases reported
      rw [followup.phase.gathered]
      exact ⟨reportedOnce_long followup good late, fun _ =>
        followup_long followup covered phase rfl rfl rfl⟩
  | repeated known =>
      obtain ⟨-, rfl⟩ := report_repeat.mp reported
      exact once_of_consistent trivial (followup_silent followup good id rfl rfl covered phase
        (fun down alone => ⟨down, alone, id⟩) id)
  | unknown absent =>
      obtain ⟨known, -⟩ := report_release.mp reported
      exact absurd absent (complete.found known)
  | refused absent busy room => exact absurd admitted (not_admits absent busy)
  | unplaced absent busy =>
      obtain ⟨known, -⟩ := report_repeat.mp reported
      exact absurd absent (complete.found known)
  | pressedAgain table same up room =>
      exact once_of_consistent trivial (followup_pressed followup good table up rfl rfl rfl rfl covered phase)
  | pressed table absent busy up room =>
      exact once_of_consistent trivial (followup_pressed followup good table up printedCodes_flushed
        longReports_flushed rfl rfl covered phase)
  | kept table same down =>
      obtain ⟨-, rfl⟩ := report_repeat.mp reported
      exact once_of_consistent trivial (followup_silent followup good id rfl rfl covered phase
        (fun held alone => ⟨held, alone, fun some =>
          unclicked_replaced table some fun _ => ⟨live_keyRepeat, rfl⟩⟩) id)
  | adopted table absent busy up =>
      obtain ⟨known, -⟩ := report_repeat.mp reported
      exact absurd absent (complete.found known)
  | @combined before slot rest code later table same down first several =>
      exact ⟨reportedOnce_combined followup first several, fun _ =>
        followup_combined followup covered phase (show getKeyPressNum sys.app.key ≠ 0 by omega) several⟩
  | dissolved table same down again several =>
      exact once_of_consistent (fun alone => absurd alone again)
        (followup_silent followup good id rfl rfl covered phase
          (fun _ alone => absurd alone (by dsimp only; omega)) fun _ => again)
  | ended table same down again last =>
      obtain ⟨known, rfl⟩ := report_release.mp reported
      exact once_of_consistent (fun alone => absurd alone again)
        (followup_silent followup good id rfl rfl covered phase
          (fun some _ => absurd (followup.covered.erase_last last known) some) fun never => absurd rfl never)
  | released table same down alone last =>
      obtain ⟨known, rfl⟩ := report_release.mp reported
      refine once_of_consistent (fun _ several => absurd several (by omega))
        (followup_silent followup good id ?_ ?_ covered phase
          (fun some _ => absurd (followup.covered.erase_last last known) some) id)
      · split
        · rfl
        · rfl
      · split
        · rfl
        · rfl

end Steps

theorem followup_started : Followup started { combinations := [], longs := 0 } where
  covered := covered_started
  phase := phase_started
  gathering := fun down => absurd rfl down
  dissolving := fun again => absurd rfl again

/-- With at most four keys at a time each gesture is reported once throughout a run exactly if all
events find the clicks that they need, and each press the counters within their range. -/
theorem gestures_once_iff_consistent (events : List Event) :
    Run.Always (courseUpTo maxKeys noteGesture) (Run.Defined fun watched => ReportedOnce watched.seen)
        (some ⟨started, ⟨[], 0⟩⟩) events ↔
      Run.Along (courseUpTo maxKeys noteGesture)
        (Run.OnState fun watched event => Consistent watched.state.app event ∧ Room watched.state.app event)
        (some ⟨started, ⟨[], 0⟩⟩) events := by
  have stepwise : ∀ {sys next : Sys} {notes : GestureNotes} {event : Event} {reports : List Report},
      Followup sys notes → ReportedOnce notes → stepUpTo maxKeys sys event = some (next, reports) →
      (ReportedOnce (noteGesture notes sys event reports) ↔ Consistent sys.app event) ∧
        (Consistent sys.app event → Followup next (noteGesture notes sys event reports)) := by
    intro sys next notes event reports followup good stepped
    obtain ⟨stepped, few⟩ := stepUpTo_eq_some.mp stepped
    have covered := followup.covered
    obtain ⟨reported, change, -⟩ := change_of_step covered.tracking stepped
    have admitted := admits_of_few covered.tracking covered.complete reported few
    exact followup_of_change followup good (covered.of_step stepped admitted) admitted reported change
  refine Run.defined_iff_along (fun watched => Followup watched.state watched.seen) ?_ ?_ ?_ followup_started
    reportedOnce_nothing
  · intro watched event followup able
    rw [Run.watch_exists]
    exact stepUpTo_iff_room followup.covered.tracking able
  · intro watched event next followup good taken
    obtain ⟨sys, reports, stepped, rfl⟩ := Run.watch_eq_some.mp taken
    exact (stepwise followup good stepped).1
  · intro watched event next followup good consistent taken
    obtain ⟨sys, reports, stepped, rfl⟩ := Run.watch_eq_some.mp taken
    exact (stepwise followup good stepped).2 consistent

/-- Two keys are held for a long press and then released: the combination is reported too, without
its keys. -/
theorem long_press_reported_twice :
    ¬ Run.Always (courseUpTo maxKeys noteGesture) (Run.Defined fun watched => ReportedOnce watched.seen)
        (some ⟨started, ⟨[], 0⟩⟩)
        [.key 30 .keyPress 1000000, .key 31 .keyPress 1100000, .timeout 4200000, .key 31 .keyRelease 4300000] := by
  intro always
  have once := always _ (some {
    state := {
      app := {
        key := [⟨30, .keyPress, 0⟩, ⟨31, .keyRelease, 0⟩, noKey, noKey]
        startTime := 4300000
        pressCnt := 2
        keysStatus := .longKeyPress
        lockCnt := 1 }
      held := [30] }
    seen := { combinations := [([], [31, 30])], longs := 1 } }) (List.prefix_refl _) (by decide)
  exact absurd once.apart (by decide)

end Dwadelib.KeyApp
