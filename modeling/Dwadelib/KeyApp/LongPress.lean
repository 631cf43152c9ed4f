import Dwadelib.KeyApp.Phase

namespace Dwadelib.KeyApp

/-! # Releases that end a long press

`keys_status` says that there was a long press, not of which key. The count of a slot says whether
the press of its key has been gathered: gathering sets it to zero, and a press that got a slot
leaves it above zero.
-/

variable {app next : App} {key before rest : List KeyInfo} {info slot stored : KeyInfo} {code : Nat}
  {later now : Int} {held after : List Nat} {event : Event} {reports : List Report}

/-- The keys that `long_key_handle` has gathered since they went down, the keys that went down while
there was no slot for them, and the keys for which `single_long_key_release` was called without the
first. -/
structure LongNotes where
  gathered : List Nat
  refused : List Nat
  spurious : List Nat
  deriving DecidableEq

def gatheredKeys (reports : List Report) : List Nat :=
  reports.flatMap fun
    | .longKeyHandle keyInfo => keyInfo.map KeyInfo.code
    | _ => []

def longReleases (reports : List Report) : List Nat :=
  reports.filterMap fun
    | .singleLongKeyRelease code => some code
    | _ => none

def noteLong (notes : LongNotes) (sys : Sys) (event : Event) (reports : List Report) : LongNotes :=
  let spurious := notes.spurious ++ (longReleases reports).filter fun code => code ∉ notes.gathered
  match event with
  | .key code .keyPress _ =>
      { gathered := notes.gathered.filter fun other => other ≠ code
        refused :=
          if Admits sys.app event then notes.refused.filter fun other => other ≠ code
          else code :: notes.refused
        spurious }
  | _ => { notes with gathered := notes.gathered ++ gatheredKeys reports, spurious }

/-- The only key that is down, released after some long press: its own press has been gathered. -/
def Earned (app : App) (notes : LongNotes) : Event → Prop
  | .key code .keyRelease _ =>
      app.pressCnt = 0 → getKeyPressNum app.key = 1 → app.keysStatus = .longKeyPress →
        ∀ info ∈ app.key, info.code = code → info.cnt = 0 ∧ code ∉ notes.refused
  | _ => True

/-- The gathered keys are those whose slot has no clicks left. -/
structure Linked (app : App) (held : List Nat) (notes : LongNotes) : Prop where
  slots : ∀ info ∈ app.key, Live info →
    (info.code ∈ notes.gathered ↔ info.cnt = 0 ∧ info.code ∉ notes.refused) ∧
      (info.code ∈ notes.refused → info.cnt = 0)
  others : ∀ code ∈ held, (∀ info ∈ app.key, info.code ≠ code) → code ∈ notes.refused ∧ code ∉ notes.gathered

variable {notes noted : LongNotes}

theorem gatheredKeys_long : gatheredKeys (longKeyReports key) = key.map KeyInfo.code := by
  match key with
  | [] => rfl
  | [info] =>
      rw [longKeyReports]
      split
      · rfl
      · rfl
  | first :: second :: rest =>
      simp only [longKeyReports, gatheredKeys, List.flatMap_cons, List.flatMap_nil, List.append_nil]

theorem longReleases_long : longReleases (longKeyReports key) = [] := by
  match key with
  | [] => rfl
  | [info] =>
      rw [longKeyReports]
      split
      · rfl
      · rfl
  | first :: second :: rest => rfl

theorem flushed_quiet : gatheredKeys (flushed key) = [] ∧ longReleases (flushed key) = [] := by
  rw [flushed]
  split
  · cases (pending key).head? with
    | none => exact ⟨rfl, rfl⟩
    | some info => exact ⟨rfl, rfl⟩
  · exact ⟨rfl, rfl⟩

/-- The notes on all keys but one are the same. -/
structure Noted (changed : Nat) (notes noted : LongNotes) : Prop where
  refused : ∀ code, code ≠ changed → (code ∈ noted.refused ↔ code ∈ notes.refused)
  gathered : ∀ code, code ≠ changed → (code ∈ noted.gathered ↔ code ∈ notes.gathered)

theorem Linked.slot_of_same (linked : Linked app held notes) (same : Noted code notes noted)
    (member : info ∈ app.key) (live : Live info) (other : info.code ≠ code) :
    (info.code ∈ noted.gathered ↔ info.cnt = 0 ∧ info.code ∉ noted.refused) ∧
      (info.code ∈ noted.refused → info.cnt = 0) := by
  rw [same.refused _ other, same.gathered _ other]
  exact linked.slots info member live

theorem Linked.others_of_same (linked : Linked app held notes) (same : Noted code notes noted) {other : Nat}
    (known : other ∈ held) (absent : ∀ info ∈ app.key, info.code ≠ other) (different : other ≠ code) :
    other ∈ noted.refused ∧ other ∉ noted.gathered := by
  rw [same.refused _ different, same.gathered _ different]
  exact linked.others other known absent

/-- One slot is written, and nothing is noted of the other keys. -/
theorem Linked.replaced (linked : Linked app held notes) (same : Noted code notes noted)
    (table : app.key = before ++ slot :: rest) (key : next.key = before ++ stored :: rest)
    (others : ∀ info ∈ before ++ rest, Live info → info.code ≠ code)
    (written : Live stored →
      (stored.code ∈ noted.gathered ↔ stored.cnt = 0 ∧ stored.code ∉ noted.refused) ∧
        (stored.code ∈ noted.refused → stored.cnt = 0))
    (fewer : ∀ other ∈ after, other ≠ stored.code → other ∈ held ∧ other ≠ slot.code ∧ other ≠ code) :
    Linked next after noted where
  slots := by
    rw [key]
    intro info member live
    rw [List.mem_append, List.mem_cons] at member
    rcases member with left | rfl | right
    · exact linked.slot_of_same same (table ▸ List.mem_append_left _ left) live
        (others info (List.mem_append_left _ left) live)
    · exact written live
    · exact linked.slot_of_same same (table ▸ List.mem_append_right _ (List.mem_cons_of_mem _ right)) live
        (others info (List.mem_append_right _ right) live)
  others := by
    rw [key]
    intro other known absent
    obtain ⟨earlier, free, different⟩ := fewer other known fun again => absent stored mem_middle again.symm
    refine linked.others_of_same same earlier ?_ different
    rw [table]
    exact forall_replaced absent free.symm

/-- No slot and nothing but the notes on a key without a slot has changed. -/
theorem Linked.unchanged (linked : Linked app held notes) (same : Noted code notes noted)
    (key : next.key = app.key) (others : ∀ info ∈ app.key, info.code ≠ code)
    (fewer : ∀ other ∈ after, other ≠ code → other ∈ held)
    (changed : code ∈ after → code ∈ noted.refused ∧ code ∉ noted.gathered) : Linked next after noted where
  slots := by
    rw [key]
    intro info member live
    exact linked.slot_of_same same member live (others info member)
  others := by
    rw [key]
    intro other known absent
    by_cases here : other = code
    · rw [here] at known ⊢
      exact changed known
    · exact linked.others_of_same same (fewer other known here) absent here

/-- What a long press gathers has no clicks left. -/
theorem Linked.cleared (linked : Linked app held notes) (refused : noted.refused = notes.refused)
    (gathered : noted.gathered = notes.gathered ++ (heldPending app.key).map KeyInfo.code)
    (key : next.key = app.key.map fun info => { info with cnt := 0 }) : Linked next held noted where
  slots := by
    rw [key, forall_cleared, refused, gathered]
    intro info member live
    obtain ⟨link, none⟩ := linked.slots info member live
    refine ⟨?_, fun _ => rfl⟩
    simp only [List.mem_append, List.mem_map, true_and]
    constructor
    · intro given
      rcases given with known | ⟨other, within, same⟩
      · exact (link.mp known).2
      · obtain ⟨inside, clicked, down⟩ := mem_heldPending.mp within
        rw [← same]
        exact fun refusal => clicked ((linked.slots other inside down).2 refusal)
    · intro accepted
      by_cases clicked : info.cnt = 0
      · exact .inl (link.mpr ⟨clicked, accepted⟩)
      · exact .inr ⟨info, mem_heldPending.mpr ⟨member, clicked, live⟩, rfl⟩
  others := by
    rw [key, refused, gathered]
    intro code known absent
    have missing : ∀ info ∈ app.key, info.code ≠ code := forall_cleared.mp absent
    obtain ⟨refusal, unknown⟩ := linked.others code known missing
    refine ⟨refusal, ?_⟩
    simp only [List.mem_append, List.mem_map, not_or, not_exists, not_and]
    exact ⟨unknown, fun info within => missing info (mem_heldPending.mp within).1⟩

variable {sys last : Sys}

theorem noted_press : Noted code notes (noteLong notes sys (.key code .keyPress later) reports) where
  refused := by
    intro other different
    simp only [noteLong]
    split
    · rw [List.mem_filter, decide_eq_true_eq, and_iff_left different]
    · rw [List.mem_cons, or_iff_right different]
  gathered := by
    intro other different
    simp only [noteLong]
    rw [List.mem_filter, decide_eq_true_eq, and_iff_left different]

section Quiet

variable (quiet : gatheredKeys reports = []) (other : ∀ code later, event ≠ .key code .keyPress later)
include quiet other

theorem noteLong_quiet :
    (noteLong notes sys event reports).refused = notes.refused ∧
      (noteLong notes sys event reports).gathered = notes.gathered := by
  have none : notes.gathered ++ gatheredKeys reports = notes.gathered := by rw [quiet, List.append_nil]
  cases event with
  | timeout now => exact ⟨rfl, none⟩
  | key code value later =>
      cases value with
      | keyRelease => exact ⟨rfl, none⟩
      | keyPress => exact absurd rfl (other code later)
      | keyRepeat => exact ⟨rfl, none⟩

theorem noted_quiet : Noted code notes (noteLong notes sys event reports) where
  refused := by
    intro _ _
    rw [(noteLong_quiet quiet other).1]
  gathered := by
    intro _ _
    rw [(noteLong_quiet quiet other).2]

theorem Linked.unnoted (linked : Linked app held notes) : Linked app held (noteLong notes sys event reports) where
  slots := by
    rw [(noteLong_quiet quiet other).1, (noteLong_quiet quiet other).2]
    exact linked.slots
  others := by
    rw [(noteLong_quiet quiet other).1, (noteLong_quiet quiet other).2]
    exact linked.others

end Quiet

theorem noteLong_release (quiet : gatheredKeys reports = []) :
    (noteLong notes sys (.key code .keyRelease later) reports).refused = notes.refused ∧
      (noteLong notes sys (.key code .keyRelease later) reports).gathered = notes.gathered :=
  noteLong_quiet quiet nofun

theorem noteLong_repeat (quiet : gatheredKeys reports = []) :
    (noteLong notes sys (.key code .keyRepeat later) reports).refused = notes.refused ∧
      (noteLong notes sys (.key code .keyRepeat later) reports).gathered = notes.gathered :=
  noteLong_quiet quiet nofun

theorem written_press {cnt : Nat} (admitted : Admits sys.app (.key code .keyPress later)) (clicked : cnt ≠ 0) :
    (code ∈ (noteLong notes sys (.key code .keyPress later) reports).gathered ↔
        cnt = 0 ∧ code ∉ (noteLong notes sys (.key code .keyPress later) reports).refused) ∧
      (code ∈ (noteLong notes sys (.key code .keyPress later) reports).refused → cnt = 0) := by
  simp only [noteLong, if_pos admitted, List.mem_filter, decide_eq_true_eq, ne_eq, not_true_eq_false, and_false,
    false_imp_iff, and_true, false_iff]
  exact fun both => clicked both.1

theorem Linked.letGo {cnt : Nat} (linked : Linked app held notes) (tracking : Tracking app held)
    (table : app.key = before ++ slot :: rest) (same : slot.code = code) (known : code ∈ held)
    (quiet : gatheredKeys reports = [])
    (key : next.key = before ++ { code, status := .keyRelease, cnt } :: rest) :
    Linked next (held.erase code) (noteLong notes sys (.key code .keyRelease later) reports) := by
  have others := tracking.others table same fun zero => tracking.real (zero ▸ known)
  refine linked.replaced (noted_quiet quiet nofun) table key (fun info member _ => others info member)
    (fun live => absurd rfl live) fun other member different => ?_
  exact ⟨List.mem_of_mem_erase member, same.symm ▸ different, different⟩

/-- After the last release of a combination no slot is left, and the keys that are still down have
had none. -/
theorem Linked.ended (linked : Linked app held notes) (tracking : Tracking app held)
    (table : app.key = before ++ slot :: rest) (same : slot.code = code) (live : Live slot)
    (last : getKeyPressNum app.key = 1) (key : next.key = List.replicate maxKeys noKey) :
    Linked next (held.erase code) (noteLong notes sys (.key code .keyRelease later) []) where
  slots := by
    rw [key]
    intro info member down
    rw [List.eq_of_mem_replicate member] at down
    exact absurd rfl down
  others := by
    intro other known _
    rw [(noteLong_release rfl).1, (noteLong_release rfl).2]
    rw [table, pressNum_live live, Nat.add_eq_right, pressNum_eq_zero] at last
    refine linked.others other (List.mem_of_mem_erase known) fun info member again => ?_
    rw [table, List.mem_append, List.mem_cons] at member
    have down : info ∈ app.key → Live info := fun inside =>
      (tracking.agrees info inside).mpr (again ▸ List.mem_of_mem_erase known)
    rcases member with left | rfl | right
    · exact last info (List.mem_append_left _ left) (down (table ▸ List.mem_append_left _ left))
    · rw [← again, same] at known
      exact tracking.single.not_mem_erase known
    · exact last info (List.mem_append_right _ right)
        (down (table ▸ List.mem_append_right _ (List.mem_cons_of_mem _ right)))

theorem Linked.of_change (linked : Linked app held notes) (tracking : Tracking app held) (phase : Phase app)
    (reported : report held event = some after) (change : Change app event next reports) :
    Linked next after (noteLong notes { app, held } event reports) := by
  have elsewhere : ∀ {slot : KeyInfo} {other : Nat}, slot ∈ app.key → slot.status = .keyRelease → other ∈ held →
      other ≠ slot.code := by
    intro slot other member up known same
    exact (tracking.agrees slot member).mpr (same ▸ known) up
  cases change with
  | waited early =>
      cases reported
      exact linked.unnoted rfl nofun
  | clicked early table only up =>
      cases reported
      refine linked.replaced (?_ : Noted 0 notes _) table rfl ?_ ?_ ?_
      · exact noted_quiet rfl nofun
      · intro info member live zero
        have inside : info ∈ app.key := by
          rw [table]
          exact (List.mem_append.mp member).elim (List.mem_append_left _)
            fun right => List.mem_append_right _ (List.mem_cons_of_mem _ right)
        exact tracking.real (zero ▸ (tracking.agrees info inside).mp live)
      · exact fun live => absurd up live
      · intro other known different
        exact ⟨known, elsewhere (table ▸ mem_middle) up known, different⟩
  | longPressed late clicks =>
      cases reported
      refine linked.cleared rfl ?_ rfl
      rw [phase.gathered]
      simp only [noteLong, gatheredKeys_long]
  | repeated known =>
      obtain ⟨-, rfl⟩ := report_repeat.mp reported
      exact linked.unnoted rfl nofun
  | unknown absent =>
      obtain ⟨known, rfl⟩ := report_release.mp reported
      refine linked.unchanged (noted_quiet rfl nofun) rfl absent ?_ ?_
      · exact fun other member _ => List.mem_of_mem_erase member
      · exact fun member => absurd member tracking.single.not_mem_erase
  | refused absent busy room =>
      obtain ⟨-, rfl⟩ := report_press.mp reported
      refine linked.unchanged noted_press rfl absent ?_ fun _ => ?_
      · exact fun other member different => (mem_cons_elsewhere different).mp member
      · simp only [noteLong, if_neg (not_admits absent busy), List.mem_filter, decide_eq_true_eq, List.mem_cons,
          true_or, ne_eq, not_true_eq_false, and_false, not_false_eq_true, and_self]
  | unplaced absent busy =>
      obtain ⟨-, rfl⟩ := report_repeat.mp reported
      exact linked.unnoted rfl nofun
  | pressedAgain table same up room =>
      obtain ⟨⟨nonzero, -⟩, rfl⟩ := report_press.mp reported
      refine linked.replaced noted_press table rfl (fun info member _ => tracking.others table same nonzero info member)
        (fun _ => written_press ⟨_, table ▸ mem_middle, .inl same⟩ (Nat.succ_ne_zero _)) fun other member different => ?_
      exact ⟨(mem_cons_elsewhere different).mp member, same.symm ▸ different, different⟩
  | pressed table absent busy up room =>
      obtain ⟨-, rfl⟩ := report_press.mp reported
      refine linked.replaced noted_press table rfl (fun info member _ => absent_others table absent info member)
        (fun _ => written_press ⟨_, table ▸ mem_middle, .inr up⟩ (Nat.succ_ne_zero _)) fun other member different => ?_
      have known := (mem_cons_elsewhere different).mp member
      exact ⟨known, elsewhere (table ▸ mem_middle) up known, different⟩
  | @kept before slot rest code later table same down =>
      obtain ⟨known, rfl⟩ := report_repeat.mp reported
      have live : Live slot := by rw [Live, down]; decide
      have link := linked.slots slot (table ▸ mem_middle) live
      refine linked.replaced (noted_quiet rfl nofun) table rfl
        (fun info member _ => tracking.others table same (fun zero => tracking.real (zero ▸ known)) info member)
        (fun _ => ?_) fun other member different => ?_
      · rw [(noteLong_repeat rfl).1, (noteLong_repeat rfl).2, ← same]
        exact link
      · exact ⟨member, same.symm ▸ different, different⟩
  | adopted table absent busy up =>
      obtain ⟨known, rfl⟩ := report_repeat.mp reported
      obtain ⟨refusal, unknown⟩ := linked.others _ known absent
      refine linked.replaced (noted_quiet flushed_quiet.1 nofun) table rfl
        (fun info member _ => absent_others table absent info member) (fun _ => ?_)
        fun other member different => ?_
      · rw [(noteLong_repeat flushed_quiet.1).1, (noteLong_repeat flushed_quiet.1).2]
        exact ⟨iff_of_false unknown fun both => both.2 refusal, fun _ => rfl⟩
      · exact ⟨member, elsewhere (table ▸ mem_middle) up member, different⟩
  | combined table same down first several =>
      obtain ⟨known, rfl⟩ := report_release.mp reported
      exact linked.letGo tracking table same known rfl rfl
  | dissolved table same down again several =>
      obtain ⟨known, rfl⟩ := report_release.mp reported
      exact linked.letGo tracking table same known rfl rfl
  | ended table same down again last =>
      obtain ⟨known, rfl⟩ := report_release.mp reported
      exact linked.ended tracking table same down last rfl
  | released table same down alone last =>
      obtain ⟨known, rfl⟩ := report_release.mp reported
      refine linked.letGo tracking table same known ?_ rfl
      split
      · rfl
      · rfl

/-- The slots follow the keys and know whose press has been gathered. -/
structure Informed (watched : Run.Watched Sys LongNotes) : Prop where
  tracking : Tracking watched.state.app watched.state.held
  phase : Phase watched.state.app
  linked : Linked watched.state.app watched.state.held watched.seen

def unnoted : LongNotes where
  gathered := []
  refused := []
  spurious := []

theorem informed_started : Informed ⟨started, unnoted⟩ where
  tracking := followed_started
  phase := phase_started
  linked := {
    slots := by
      intro info member live
      exact absurd (List.eq_of_mem_replicate member ▸ rfl) live
    others := by
      intro code member
      contradiction
  }

theorem spurious_noteLong :
    (noteLong notes sys event reports).spurious =
      notes.spurious ++ (longReleases reports).filter fun code => code ∉ notes.gathered := by
  cases event with
  | timeout now => rfl
  | key code value later =>
      cases value with
      | keyRelease => rfl
      | keyPress => rfl
      | keyRepeat => rfl

/-- A change releases a long press that was none exactly if the key's own press was not gathered. -/
theorem released_iff_earned (tracking : Tracking app held) (linked : Linked app held notes)
    (reported : report held event = some after) (change : Change app event next reports) :
    ((longReleases reports).filter fun code => code ∉ notes.gathered) = [] ↔ Earned app notes event := by
  cases change with
  | waited early => exact iff_of_true rfl trivial
  | clicked early table only up => exact iff_of_true rfl trivial
  | longPressed late clicks => exact iff_of_true (by rw [longReleases_long, List.filter_nil]) trivial
  | repeated known => exact iff_of_true rfl trivial
  | unknown absent =>
      exact iff_of_true rfl fun _ _ _ info member same => absurd same (absent info member)
  | refused absent busy room => exact iff_of_true rfl trivial
  | unplaced absent busy => exact iff_of_true rfl trivial
  | pressedAgain table same up room => exact iff_of_true rfl trivial
  | pressed table absent busy up room => exact iff_of_true (by rw [flushed_quiet.2, List.filter_nil]) trivial
  | kept table same down => exact iff_of_true rfl trivial
  | adopted table absent busy up => exact iff_of_true (by rw [flushed_quiet.2, List.filter_nil]) trivial
  | combined table same down first several =>
      exact iff_of_true rfl fun _ last => absurd last (by omega)
  | dissolved table same down again several => exact iff_of_true rfl fun alone => absurd alone again
  | ended table same down again last => exact iff_of_true rfl fun alone => absurd alone again
  | @released before slot rest code later table same down alone last =>
      obtain ⟨known, -⟩ := report_release.mp reported
      have others := tracking.others table same fun zero => tracking.real (zero ▸ known)
      have link := (linked.slots slot (table ▸ mem_middle) down).1
      by_cases long : app.keysStatus = .longKeyPress
      · rw [if_pos long]
        have only : Earned app notes (.key code .keyRelease later) ↔ slot.cnt = 0 ∧ code ∉ notes.refused := by
          constructor
          · exact fun earned => earned alone last long slot (table ▸ mem_middle) same
          · intro both _ _ _ info member again
            rw [table, List.mem_append, List.mem_cons] at member
            rcases member with left | rfl | right
            · exact absurd again (others info (List.mem_append_left _ left))
            · exact both
            · exact absurd again (others info (List.mem_append_right _ right))
        rw [only, ← same, ← link]
        simp [longReleases]
      · rw [if_neg long]
        exact iff_of_true rfl fun _ _ status => absurd status long

/-- In every run `single_long_key_release` is called only for keys that a long press has gathered
since they went down exactly if each release of a last key is earned, and each press finds the
counters within their range. -/
theorem long_releases_iff_earned (events : List Event) :
    Run.Always (watchedCourse noteLong) (Run.Defined fun watched => watched.seen.spurious = [])
        (some ⟨started, unnoted⟩) events ↔
      Run.Along (watchedCourse noteLong)
        (Run.OnState fun watched event =>
          Earned watched.state.app watched.seen event ∧ Room watched.state.app event)
        (some ⟨started, unnoted⟩) events := by
  refine Run.defined_iff_along Informed ?_ ?_ ?_ informed_started rfl
  · intro watched event informed able
    rw [Run.watch_exists]
    exact step_iff_room informed.tracking able
  · intro watched event next informed lawful taken
    obtain ⟨sys, reports, stepped, rfl⟩ := Run.watch_eq_some.mp taken
    obtain ⟨reported, change, -⟩ := change_of_step informed.tracking stepped
    rw [spurious_noteLong, lawful, List.nil_append]
    exact released_iff_earned informed.tracking informed.linked reported change
  · intro watched event next informed lawful earned taken
    obtain ⟨sys, reports, stepped, rfl⟩ := Run.watch_eq_some.mp taken
    obtain ⟨reported, change, tracking⟩ := change_of_step informed.tracking stepped
    have linked : Linked sys.app sys.held (noteLong watched.seen watched.state event reports) :=
      informed.linked.of_change informed.tracking informed.phase reported change
    exact {
      tracking := tracking
      phase := informed.phase.of_change reported change
      linked := linked
    }

/-- A click that is up when a long timeout comes leaves `keys_status` behind; the next key is
released at once and is taken for a long press. -/
theorem short_press_released_as_long :
    ¬ Run.Always (watchedCourse noteLong) (Run.Defined fun watched => watched.seen.spurious = [])
      (some ⟨started, unnoted⟩)
      [.key 30 .keyPress 1000000, .key 30 .keyRelease 3999000, .timeout 4001000,
        .key 31 .keyPress 5000000, .key 31 .keyRelease 5100000] := by
  intro always
  have lawful := always _ (some {
    state := {
      app := {
        key := [⟨31, .keyRelease, 1⟩, noKey, noKey, noKey]
        startTime := 5000000
        pressCnt := 0
        keysStatus := .singelKeyPress
        lockCnt := 0 }
      held := [] }
    seen := { gathered := [], refused := [], spurious := [31] } }) (List.prefix_refl _) (by decide)
  rw [Run.Defined] at lawful
  exact absurd lawful (by decide)

end Dwadelib.KeyApp
