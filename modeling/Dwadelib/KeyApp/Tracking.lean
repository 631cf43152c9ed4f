import Dwadelib.KeyApp.Step
import Dwadelib.Run

namespace Dwadelib.KeyApp

/-! # The slots follow the keys -/

variable {app next : App} {key before rest : List KeyInfo} {info slot stored : KeyInfo} {code : Nat}
  {value : KeyValue} {later now : Int} {held after : List Nat} {event : Event} {reports : List Report}

/-- The tracker and the keys that are down. -/
structure Sys where
  app : App
  held : List Nat
  deriving DecidableEq

def step (sys : Sys) (event : Event) : Option (Sys × List Report) := do
  let held ← report sys.held event
  let (app, reports) ← inputKeysAnalyse sys.app event
  some ({ app, held }, reports)

/-- All is zero when the program starts, and `main` calls `keys_init`. -/
def started : Sys where
  app := keysInit {
    key := List.replicate maxKeys noKey
    startTime := 0
    pressCnt := 0
    keysStatus := .singelKeyPress
    lockCnt := 0 }
  held := []

theorem step_eq_some {sys next : Sys} :
    step sys event = some (next, reports) ↔
      report sys.held event = some next.held ∧
        inputKeysAnalyse sys.app event = some (next.app, reports) := by
  simp only [step, Option.bind_eq_bind, Option.bind_eq_some_iff, Option.some.injEq, Prod.mk.injEq,
    Prod.exists]
  constructor
  · intro given
    obtain ⟨held, reported, app, made, analysed, rfl, rfl⟩ := given
    exact ⟨reported, analysed⟩
  · intro both
    exact ⟨next.held, both.1, next.app, reports, both.2, rfl, rfl⟩

section Locks

variable (locked : Locked app held)
include locked

theorem Locked.same (same : next.lockCnt = app.lockCnt) (fewer : after.length ≤ held.length) : Locked next after := by
  obtain ⟨counted, fits⟩ := locked
  exact ⟨by omega, by omega⟩

theorem Locked.press (more : next.lockCnt = app.lockCnt + 1) (room : app.lockCnt + 1 < 2 ^ 31) :
    Locked next (code :: held) := by
  obtain ⟨counted, -⟩ := locked
  exact ⟨by rw [more, List.length_cons]; omega, more ▸ room⟩

theorem Locked.release (less : next.lockCnt = app.lockCnt - 1) (known : code ∈ held) :
    Locked next (held.erase code) := by
  obtain ⟨counted, fits⟩ := locked
  have some := List.length_pos_of_mem known
  exact ⟨by rw [less, List.length_erase_of_mem known]; omega, by omega⟩

end Locks

theorem Tracking.others (tracking : Tracking app held) (table : app.key = before ++ slot :: rest)
    (same : slot.code = code) (real : code ≠ 0) : ∀ info ∈ before ++ rest, info.code ≠ code := by
  have distinct := tracking.distinct
  rw [table, List.pairwise_append, List.pairwise_cons] at distinct
  obtain ⟨-, ⟨late, -⟩, early⟩ := distinct
  intro info member again
  rcases List.mem_append.mp member with left | right
  · have zero := early info left slot List.mem_cons_self (again.trans same.symm)
    exact real (again.symm.trans zero)
  · have zero := late info right (same.trans again.symm)
    exact real (same.symm.trans zero)

theorem absent_others (table : app.key = before ++ slot :: rest) (absent : ∀ info ∈ app.key, info.code ≠ code) :
    ∀ info ∈ before ++ rest, info.code ≠ code := by
  intro info member
  apply absent info
  rw [table]
  rcases List.mem_append.mp member with left | right
  · exact List.mem_append_left _ left
  · exact List.mem_append_right _ (List.mem_cons_of_mem _ right)

/-- One slot gets a code that no other slot has. -/
theorem Tracking.replaced (tracking : Tracking app held) (table : app.key = before ++ slot :: rest)
    (others : stored.code = 0 ∨ ∀ info ∈ before ++ rest, info.code ≠ stored.code)
    (single : after.Nodup) (real : 0 ∉ after) (live : Live stored ↔ stored.code ∈ after)
    (elsewhere : ∀ info ∈ before ++ rest, info.code ∈ after ↔ info.code ∈ held)
    (key : next.key = before ++ stored :: rest) (locked : Locked next after) : Tracking next after := by
  have size := tracking.size
  have distinct := tracking.distinct
  have agrees := tracking.agrees
  simp only [table, List.length_append, List.length_cons, List.pairwise_append, List.pairwise_cons,
    List.mem_cons, List.mem_append, or_imp, forall_and] at size distinct agrees others elsewhere
  obtain ⟨early, ⟨-, late⟩, -, between⟩ := distinct
  refine {
    size := by simpa only [key, List.length_append, List.length_cons] using size
    single := single
    real := real
    distinct := ?_
    agrees := ?_
    locked := locked
  }
  · simp only [key, List.pairwise_append, List.pairwise_cons, List.mem_cons, forall_eq_or_imp]
    rcases others with zero | ⟨left, right⟩
    · refine ⟨early, ⟨fun info _ _ => zero, late⟩, ?_⟩
      intro info member
      exact ⟨fun same => same.trans zero, fun other inside => between info member other inside⟩
    · refine ⟨early, ⟨fun info member same => absurd same.symm (right info member), late⟩, ?_⟩
      intro info member
      exact ⟨fun same => absurd same (left info member), fun other inside => between info member other inside⟩
  · simp only [key, List.mem_append, List.mem_cons]
    intro info member
    rcases member with left | rfl | right
    · rw [agrees.1 info left, elsewhere.1 info left]
    · exact live
    · rw [agrees.2.2 info right, elsewhere.2 info right]

section Reported

variable {held after : List Nat}

theorem report_press :
    report held (.key code .keyPress later) = some after ↔
      (code ≠ 0 ∧ code ∉ held) ∧ code :: held = after := by
  simp only [report, Option.ite_none_right_eq_some, Option.some.injEq]

theorem report_repeat :
    report held (.key code .keyRepeat later) = some after ↔ code ∈ held ∧ held = after := by
  simp only [report, Option.ite_none_right_eq_some, Option.some.injEq]

theorem report_release :
    report held (.key code .keyRelease later) = some after ↔ code ∈ held ∧ held.erase code = after := by
  simp only [report, Option.ite_none_right_eq_some, Option.some.injEq]

end Reported

/-- The counter goes up for a press that is made and down at most for a release. -/
theorem Locked.of_change (locked : Locked app held) (reported : report held event = some after)
    (change : Change app event next reports) : Locked next after := by
  cases change with
  | waited early =>
      cases reported
      exact locked
  | clicked early table only up =>
      cases reported
      exact locked.same rfl (Nat.le_refl _)
  | longPressed late clicks =>
      cases reported
      exact locked.same rfl (Nat.le_refl _)
  | repeated known =>
      obtain ⟨-, rfl⟩ := report_repeat.mp reported
      exact locked
  | unknown absent =>
      obtain ⟨-, rfl⟩ := report_release.mp reported
      exact locked.same rfl List.length_erase_le
  | refused absent busy room =>
      obtain ⟨-, rfl⟩ := report_press.mp reported
      exact locked.press rfl room
  | unplaced absent busy =>
      obtain ⟨-, rfl⟩ := report_repeat.mp reported
      exact locked
  | pressedAgain table same up room =>
      obtain ⟨-, rfl⟩ := report_press.mp reported
      exact locked.press rfl room
  | pressed table absent busy up room =>
      obtain ⟨-, rfl⟩ := report_press.mp reported
      exact locked.press rfl room
  | kept table same down =>
      obtain ⟨-, rfl⟩ := report_repeat.mp reported
      exact locked.same rfl (Nat.le_refl _)
  | adopted table absent busy up =>
      obtain ⟨-, rfl⟩ := report_repeat.mp reported
      exact locked.same rfl (Nat.le_refl _)
  | combined table same down first several =>
      obtain ⟨known, rfl⟩ := report_release.mp reported
      exact locked.release rfl known
  | dissolved table same down again several =>
      obtain ⟨known, rfl⟩ := report_release.mp reported
      exact locked.release rfl known
  | ended table same down again last =>
      obtain ⟨known, rfl⟩ := report_release.mp reported
      exact locked.release rfl known
  | released table same down alone last =>
      obtain ⟨known, rfl⟩ := report_release.mp reported
      exact locked.release rfl known

/-- The same slots with other counts. -/
theorem Tracking.of_map (tracking : Tracking app held) {change : KeyInfo → KeyInfo}
    (key : next.key = app.key.map change) (code : ∀ info, (change info).code = info.code)
    (status : ∀ info, (change info).status = info.status) (locked : Locked next held) : Tracking next held where
  size := by rw [key, List.length_map, tracking.size]
  single := tracking.single
  real := tracking.real
  distinct := by
    rw [key, List.pairwise_map]
    simpa only [code] using tracking.distinct
  agrees := by
    intro info member
    rw [key] at member
    obtain ⟨earlier, inside, rfl⟩ := List.mem_map.mp member
    rw [Live, status, code]
    exact tracking.agrees earlier inside
  locked := locked

theorem Tracking.of_absent (tracking : Tracking app held) (key : next.key = app.key) (single : after.Nodup)
    (real : 0 ∉ after) (elsewhere : ∀ info ∈ app.key, info.code ∈ after ↔ info.code ∈ held)
    (locked : Locked next after) : Tracking next after where
  size := key ▸ tracking.size
  single := single
  real := real
  distinct := key ▸ tracking.distinct
  agrees := by
    intro info member
    rw [key] at member
    rw [elsewhere info member]
    exact tracking.agrees info member
  locked := locked

theorem Tracking.noKeys (size : next.key = List.replicate maxKeys noKey) (single : held.Nodup) (real : 0 ∉ held)
    (locked : Locked next held) : Tracking next held where
  size := by rw [size, List.length_replicate]
  single := single
  real := real
  distinct := by
    rw [size, List.pairwise_replicate]
    exact .inr fun _ => rfl
  agrees := by
    intro info member
    rw [size] at member
    obtain rfl := List.eq_of_mem_replicate member
    exact iff_of_false (fun live => live rfl) real
  locked := locked

theorem mem_cons_elsewhere {other : Nat} (different : other ≠ code) : other ∈ code :: held ↔ other ∈ held := by
  rw [List.mem_cons, or_iff_right different]

theorem Tracking.letGo {cnt : Nat} (tracking : Tracking app held) (table : app.key = before ++ slot :: rest)
    (same : slot.code = code) (known : code ∈ held)
    (key : next.key = before ++ { code, status := .keyRelease, cnt } :: rest)
    (locked : Locked next (held.erase code)) : Tracking next (held.erase code) := by
  have others := tracking.others table same fun zero => tracking.real (zero ▸ known)
  refine tracking.replaced table (.inr others) (tracking.single.erase _)
    (fun zero => tracking.real (List.mem_of_mem_erase zero))
    (iff_of_false (fun live => live rfl) tracking.single.not_mem_erase) ?_ key locked
  intro info member
  exact List.mem_erase_of_ne (others info member)

/-- Each change keeps the slots in step with the keys. -/
theorem Tracking.of_change (tracking : Tracking app held) (reported : report held event = some after)
    (change : Change app event next reports) : Tracking next after := by
  have single := tracking.single
  have real := tracking.real
  have locked : Locked next after := tracking.locked.of_change reported change
  cases change with
  | waited early =>
      cases reported
      exact tracking
  | clicked early table only up =>
      cases reported
      refine tracking.replaced table (.inl rfl) single real ?_ (fun info member => Iff.rfl) rfl locked
      exact iff_of_false (fun live => live up) real
  | longPressed late clicks =>
      cases reported
      exact tracking.of_map rfl (fun info => rfl) (fun info => rfl) locked
  | repeated known =>
      obtain ⟨-, rfl⟩ := report_repeat.mp reported
      exact tracking
  | unknown absent =>
      obtain ⟨down, rfl⟩ := report_release.mp reported
      refine tracking.of_absent rfl (single.erase _) (fun zero => real (List.mem_of_mem_erase zero)) ?_ locked
      intro info member
      exact List.mem_erase_of_ne (absent info member)
  | refused absent busy room =>
      obtain ⟨⟨nonzero, up⟩, rfl⟩ := report_press.mp reported
      refine tracking.of_absent rfl (List.nodup_cons.mpr ⟨up, single⟩) (by simp [nonzero.symm, real]) ?_ locked
      intro info member
      exact mem_cons_elsewhere (absent info member)
  | unplaced absent busy =>
      obtain ⟨-, rfl⟩ := report_repeat.mp reported
      exact tracking
  | pressedAgain table same up room =>
      obtain ⟨⟨nonzero, released⟩, rfl⟩ := report_press.mp reported
      have others := tracking.others table same nonzero
      refine tracking.replaced table (.inr others) (List.nodup_cons.mpr ⟨released, single⟩)
        (by simp [nonzero.symm, real]) (iff_of_true live_keyPress List.mem_cons_self) ?_ rfl locked
      intro info member
      exact mem_cons_elsewhere (others info member)
  | pressed table absent busy up room =>
      obtain ⟨⟨nonzero, released⟩, rfl⟩ := report_press.mp reported
      have others := absent_others table absent
      refine tracking.replaced table (.inr others) (List.nodup_cons.mpr ⟨released, single⟩)
        (by simp [nonzero.symm, real]) (iff_of_true live_keyPress List.mem_cons_self) ?_ rfl locked
      intro info member
      exact mem_cons_elsewhere (others info member)
  | kept table same down =>
      obtain ⟨known, rfl⟩ := report_repeat.mp reported
      have others := tracking.others table same fun zero => real (zero ▸ known)
      exact tracking.replaced table (.inr others) single real (iff_of_true live_keyRepeat known)
        (fun info member => Iff.rfl) rfl locked
  | adopted table absent busy up =>
      obtain ⟨known, rfl⟩ := report_repeat.mp reported
      exact tracking.replaced table (.inr (absent_others table absent)) single real
        (iff_of_true live_keyRepeat known) (fun info member => Iff.rfl) rfl locked
  | combined table same down first several =>
      obtain ⟨known, rfl⟩ := report_release.mp reported
      exact tracking.letGo table same known rfl locked
  | dissolved table same down again several =>
      obtain ⟨known, rfl⟩ := report_release.mp reported
      exact tracking.letGo table same known rfl locked
  | ended table same down again last =>
      obtain ⟨known, rfl⟩ := report_release.mp reported
      exact .noKeys rfl (single.erase _) (fun zero => real (List.mem_of_mem_erase zero)) locked
  | released table same down alone last =>
      obtain ⟨known, rfl⟩ := report_release.mp reported
      exact tracking.letGo table same known rfl locked

theorem pressNum_live (down : Live slot) :
    getKeyPressNum (before ++ slot :: rest) = getKeyPressNum (before ++ rest) + 1 := by
  rw [getKeyPressNum, getKeyPressNum, List.countP_append, List.countP_append,
    List.countP_cons_of_pos (by simpa using down), Nat.add_assoc]

theorem pressNum_up (up : slot.status = .keyRelease) :
    getKeyPressNum (before ++ slot :: rest) = getKeyPressNum (before ++ rest) := by
  rw [getKeyPressNum, getKeyPressNum, List.countP_append, List.countP_append,
    List.countP_cons_of_neg (by simpa using up)]

theorem pressNum_map (key : List KeyInfo) :
    getKeyPressNum (key.map fun info => { info with cnt := 0 }) = getKeyPressNum key := by
  rw [getKeyPressNum, List.countP_map]
  rfl

theorem pressNum_noKeys : getKeyPressNum (List.replicate maxKeys noKey) = 0 := by
  decide

/-- The codes of the keys that the slots take to be down. -/
def tracked (key : List KeyInfo) : List Nat := (key.filter fun info => Live info).map KeyInfo.code

theorem length_tracked : (tracked key).length = getKeyPressNum key := by
  rw [tracked, List.length_map, getKeyPressNum, List.countP_eq_length_filter]

theorem mem_tracked : code ∈ tracked key ↔ ∃ info ∈ key, Live info ∧ info.code = code := by
  simp only [tracked, List.mem_map, List.mem_filter, decide_eq_true_eq, and_assoc]

theorem Tracking.nodup_tracked (tracking : Tracking app held) : (tracked app.key).Nodup := by
  rw [tracked, List.Nodup, List.pairwise_map, List.pairwise_filter]
  refine tracking.distinct.imp_of_mem ?_
  intro first second member _ distinct down _ same
  have known := (tracking.agrees first member).mp (by simpa using down)
  rw [distinct same] at known
  exact tracking.real known

theorem Tracking.tracked_subset (tracking : Tracking app held) : tracked app.key ⊆ held := by
  intro code member
  obtain ⟨info, inside, down, rfl⟩ := mem_tracked.mp member
  exact (tracking.agrees info inside).mp down

theorem Tracking.pressNum_le (tracking : Tracking app held) : getKeyPressNum app.key ≤ held.length := by
  rw [← length_tracked]
  exact (List.subperm_of_subset tracking.nodup_tracked tracking.tracked_subset).length_le

/-- Every key that is down has a slot. -/
def Complete (app : App) (held : List Nat) : Prop :=
  ∀ code ∈ held, ∃ info ∈ app.key, info.code = code

theorem Complete.found (complete : Complete app held) (known : code ∈ held) :
    ¬ ∀ info ∈ app.key, info.code ≠ code := by
  intro absent
  obtain ⟨info, member, same⟩ := complete code known
  exact absent info member same

theorem Tracking.tracked_perm (tracking : Tracking app held) (complete : Complete app held) :
    (tracked app.key).Perm held := by
  rw [List.perm_ext_iff_of_nodup tracking.nodup_tracked tracking.single]
  intro code
  refine ⟨fun member => tracking.tracked_subset member, fun known => ?_⟩
  obtain ⟨info, member, rfl⟩ := complete code known
  exact mem_tracked.mpr ⟨info, member, (tracking.agrees info member).mpr known, rfl⟩

theorem Tracking.pressNum_eq (tracking : Tracking app held) (complete : Complete app held) :
    getKeyPressNum app.key = held.length := by
  rw [← length_tracked]
  exact (tracking.tracked_perm complete).length_eq

/-- A press finds the slot of its key or a free one. -/
def Admits (app : App) : Event → Prop
  | .key code .keyPress _ => ∃ info ∈ app.key, info.code = code ∨ info.status = .keyRelease
  | _ => True

instance decidableAdmits (app : App) : (event : Event) → Decidable (Admits app event)
  | .timeout _ => instDecidableTrue
  | .key _ .keyRelease _ => instDecidableTrue
  | .key _ .keyPress _ => inferInstanceAs (Decidable (∃ info ∈ _, _))
  | .key _ .keyRepeat _ => instDecidableTrue

theorem not_admits (absent : ∀ info ∈ app.key, info.code ≠ code) (busy : ∀ info ∈ app.key, Live info) :
    ¬ Admits app (.key code .keyPress later) := by
  intro given
  obtain ⟨info, member, same | up⟩ := given
  · exact absent info member same
  · exact busy info member up

theorem Complete.replaced (complete : Complete app held) (table : app.key = before ++ slot :: rest)
    (known : ∀ code ∈ after, code = stored.code ∨ code ∈ held ∧ code ≠ slot.code)
    (key : next.key = before ++ stored :: rest) : Complete next after := by
  intro code member
  rw [key]
  rcases known code member with rfl | ⟨earlier, different⟩
  · exact ⟨stored, List.mem_append_right _ List.mem_cons_self, rfl⟩
  · obtain ⟨info, inside, rfl⟩ := complete code earlier
    rw [table, List.mem_append, List.mem_cons] at inside
    rcases inside with left | rfl | right
    · exact ⟨info, List.mem_append_left _ left, rfl⟩
    · exact absurd rfl different
    · exact ⟨info, List.mem_append_right _ (List.mem_cons_of_mem _ right), rfl⟩

theorem Complete.letGo (complete : Complete app held) (tracking : Tracking app held)
    (table : app.key = before ++ slot :: rest) (same : slot.code = code)
    (key : next.key = before ++ stored :: rest) : Complete next (held.erase code) := by
  refine complete.replaced table (fun other known => .inr ⟨List.mem_of_mem_erase known, ?_⟩) key
  intro same
  obtain rfl := same
  rw [same] at known
  exact tracking.single.not_mem_erase known

theorem Complete.of_change (complete : Complete app held) (tracking : Tracking app held)
    (reported : report held event = some after) (change : Change app event next reports)
    (admitted : Admits app event) : Complete next after := by
  cases change with
  | waited early =>
      cases reported
      exact complete
  | clicked early table only up =>
      cases reported
      refine complete.replaced table (fun code known => .inr ⟨known, ?_⟩) rfl
      intro same
      obtain rfl := same
      exact (tracking.agrees _ (table ▸ List.mem_append_right _ List.mem_cons_self)).mpr known up
  | longPressed late clicks =>
      cases reported
      intro code known
      obtain ⟨info, member, same⟩ := complete code known
      exact ⟨_, List.mem_map_of_mem member, same⟩
  | repeated known =>
      obtain ⟨-, rfl⟩ := report_repeat.mp reported
      exact complete
  | unknown absent =>
      obtain ⟨down, -⟩ := report_release.mp reported
      obtain ⟨info, member, same⟩ := complete _ down
      exact absurd same (absent info member)
  | refused absent busy room => exact absurd admitted (not_admits absent busy)
  | unplaced absent busy =>
      obtain ⟨known, -⟩ := report_repeat.mp reported
      exact absurd absent (complete.found known)
  | pressedAgain table same up room =>
      obtain ⟨⟨nonzero, released⟩, rfl⟩ := report_press.mp reported
      refine complete.replaced table (fun code known => ?_) rfl
      rcases List.mem_cons.mp known with rfl | earlier
      · exact .inl rfl
      · exact .inr ⟨earlier, fun again => released (same ▸ again ▸ earlier)⟩
  | pressed table absent busy up room =>
      obtain ⟨⟨nonzero, released⟩, rfl⟩ := report_press.mp reported
      refine complete.replaced table (fun code known => ?_) rfl
      rcases List.mem_cons.mp known with rfl | earlier
      · exact .inl rfl
      · refine .inr ⟨earlier, ?_⟩
        intro same
        obtain rfl := same
        exact (tracking.agrees _ (table ▸ List.mem_append_right _ List.mem_cons_self)).mpr earlier up
  | @kept before slot rest code later table same down =>
      obtain ⟨known, rfl⟩ := report_repeat.mp reported
      refine complete.replaced table (fun other known => ?_) rfl
      by_cases again : other = code
      · exact .inl again
      · exact .inr ⟨known, fun different => again (different.trans same)⟩
  | adopted table absent busy up =>
      obtain ⟨known, -⟩ := report_repeat.mp reported
      exact absurd absent (complete.found known)
  | combined table same down first several =>
      obtain ⟨known, rfl⟩ := report_release.mp reported
      exact complete.letGo tracking table same rfl
  | dissolved table same down again several =>
      obtain ⟨known, rfl⟩ := report_release.mp reported
      exact complete.letGo tracking table same rfl
  | ended table same down again last =>
      obtain ⟨known, rfl⟩ := report_release.mp reported
      rw [tracking.pressNum_eq complete, List.length_eq_one_iff] at last
      obtain ⟨only, rfl⟩ := last
      obtain rfl := List.mem_singleton.mp known
      intro code member
      rw [List.erase_cons_head] at member
      contradiction
  | released table same down alone last =>
      obtain ⟨known, rfl⟩ := report_release.mp reported
      exact complete.letGo tracking table same rfl

section Runs

variable {sys last : Sys} {events : List Event} {γ : Type}

/-- A step without its reports. -/
def advance (sys : Sys) (event : Event) : Option Sys := (step sys event).map Prod.fst

theorem advance_eq_some {next : Sys} :
    advance sys event = some next ↔ ∃ reports, step sys event = some (next, reports) := by
  simp only [advance, Option.map_eq_some_iff, Prod.exists, exists_and_right, exists_eq_right]

/-- The kernel can report the event. -/
def Reportable (sys : Sys) (event : Event) : Prop := (report sys.held event).isSome = true

instance decidableReportable (sys : Sys) (event : Event) : Decidable (Reportable sys event) :=
  inferInstanceAs (Decidable (_ = true))

/-- The tracker handles what the kernel can report exactly while its counters have room. -/
theorem step_iff_room (tracking : Tracking sys.app sys.held) (able : Reportable sys event) :
    (∃ next reports, step sys event = some (next, reports)) ↔ Room sys.app event := by
  obtain ⟨after, reported⟩ := Option.isSome_iff_exists.mp able
  constructor
  · intro given
    obtain ⟨next, reports, stepped⟩ := given
    by_contra none
    have analysed := (step_eq_some.mp stepped).2
    rw [tracking.undefined_of_report reported none] at analysed
    contradiction
  · intro room
    obtain ⟨app, reports, analysed, -⟩ := tracking.change_of_report reported room
    exact ⟨{ app, held := after }, reports, step_eq_some.mpr ⟨reported, analysed⟩⟩

theorem reportable_of_step {next : Sys} (stepped : step sys event = some (next, reports)) : Reportable sys event := by
  rw [Reportable, (step_eq_some.mp stepped).1]
  rfl

theorem change_of_step {next : Sys} (tracking : Tracking sys.app sys.held)
    (stepped : step sys event = some (next, reports)) :
    report sys.held event = some next.held ∧ Change sys.app event next.app reports ∧
      Tracking next.app next.held := by
  obtain ⟨reported, analysed⟩ := step_eq_some.mp stepped
  obtain ⟨app, made, same, change⟩ :=
    tracking.change_of_report reported
      ((step_iff_room tracking (reportable_of_step stepped)).mp ⟨next, reports, stepped⟩)
  cases analysed.symm.trans same
  exact ⟨reported, change, tracking.of_change reported change⟩

def Followed (sys : Sys) : Prop := Tracking sys.app sys.held

/-- Also no key that is down lacks a slot. -/
structure Covered (sys : Sys) : Prop where
  tracking : Tracking sys.app sys.held
  complete : Complete sys.app sys.held

theorem followed_started : Followed started :=
  .noKeys rfl List.nodup_nil List.not_mem_nil ⟨Int.le_refl 0, by decide⟩

theorem covered_started : Covered started where
  tracking := followed_started
  complete := by
    intro code member
    contradiction

theorem followed_of_run (reached : Run.run advance started events = some last) : Followed last := by
  refine Run.invariant_of_run ?_ followed_started reached
  intro sys event next followed advanced
  obtain ⟨reports, stepped⟩ := advance_eq_some.mp advanced
  exact (change_of_step followed stepped).2.2

theorem Covered.of_step {next : Sys} (covered : Covered sys) (stepped : step sys event = some (next, reports))
    (admitted : Admits sys.app event) : Covered next := by
  obtain ⟨reported, change, kept⟩ := change_of_step covered.tracking stepped
  exact {
    tracking := kept
    complete := covered.complete.of_change covered.tracking reported change admitted
  }

/-- With a slot for each of the keys a press always finds one. -/
theorem admits_of_few (tracking : Tracking app held) (complete : Complete app held)
    (reported : report held event = some after) (few : after.length ≤ maxKeys) : Admits app event := by
  cases event with
  | timeout now => trivial
  | key code value later =>
      cases value with
      | keyRelease => trivial
      | keyRepeat => trivial
      | keyPress =>
          obtain ⟨-, rfl⟩ := report_press.mp reported
          by_contra none
          have busy : ∀ info ∈ app.key, Live info := fun info member up => none ⟨info, member, .inr up⟩
          have full : getKeyPressNum app.key = app.key.length := by
            rw [getKeyPressNum, List.countP_eq_length]
            intro info member
            simpa using busy info member
          rw [tracking.pressNum_eq complete, tracking.size] at full
          rw [List.length_cons] at few
          omega

/-- The tracker step by step, with no state once a counter has left the range of `int`. -/
def course : Option Sys → Event → Option (Option Sys) := Run.orUndefined Reportable advance

theorem advance_iff_room (tracking : Tracking sys.app sys.held) (able : Reportable sys event) :
    (∃ next, advance sys event = some next) ↔ Room sys.app event := by
  simp only [← step_iff_room tracking able, advance_eq_some]

/-- The same with an observer of the reports. -/
def watchedCourse (note : γ → Sys → Event → List Report → γ) :
    Option (Run.Watched Sys γ) → Event → Option (Option (Run.Watched Sys γ)) :=
  Run.orUndefined (fun watched event => Reportable watched.state event) (Run.watch step note)

/-- All events before which the counters have room are handled. -/
theorem run_of_room (followed : Followed sys) (reported : Run.run report sys.held events = some held)
    (room : Run.Along course (Run.OnState fun sys event => Room sys.app event) (some sys) events) :
    ∃ app, Run.run advance sys events = some { app, held } := by
  induction events generalizing sys with
  | nil =>
      obtain ⟨app, there⟩ := sys
      cases reported
      exact ⟨app, rfl⟩
  | cons event events ih =>
      obtain ⟨after, seen, others⟩ := Run.run_cons_eq_some.mp reported
      have able : Reportable sys event := Option.isSome_iff_exists.mpr ⟨after, seen⟩
      obtain ⟨here, later⟩ := room _ (Run.orUndefined_eq_some.mpr ⟨able, rfl⟩)
      obtain ⟨next, reports, stepped⟩ := (step_iff_room followed able).mpr here
      have advanced : advance sys event = some next := advance_eq_some.mpr ⟨reports, stepped⟩
      obtain rfl : after = next.held := Option.some.inj (seen.symm.trans (step_eq_some.mp stepped).1)
      rw [advanced] at later
      obtain ⟨final, reached⟩ := ih (change_of_step followed stepped).2.2 others later
      exact ⟨final, Run.run_cons_eq_some.mpr ⟨_, advanced, reached⟩⟩

/-- With a slot for each of the keys at all times none of them is without one. -/
theorem covered_of_few (covered : Covered sys) (reached : Run.run advance sys events = some last)
    (few : Run.Always report (fun held => held.length ≤ maxKeys) sys.held events) : Covered last := by
  induction events generalizing sys with
  | nil =>
      cases reached
      exact covered
  | cons event events ih =>
      obtain ⟨next, advanced, others⟩ := Run.run_cons_eq_some.mp reached
      obtain ⟨reports, stepped⟩ := advance_eq_some.mp advanced
      have reported := (step_eq_some.mp stepped).1
      have later := ((Run.always_cons reported).mp few).2
      have small : next.held.length ≤ maxKeys := later [] next.held List.nil_prefix rfl
      exact ih (covered.of_step stepped (admits_of_few covered.tracking covered.complete reported small)) others later

/-- While the counters have room every event is handled; no two slots then have one key, a live slot
has a key that is down, and if there were never more keys down than slots each of them has one. -/
theorem slots_track_keys (reported : Run.run report [] events = some held)
    (room : Run.Along course (Run.OnState fun sys event => Room sys.app event) (some started) events) :
    ∃ app, Run.run advance started events = some { app, held } ∧ app.key.length = maxKeys ∧
      (app.key.Pairwise fun first second => first.code = second.code → first.code = 0) ∧
      (∀ info ∈ app.key, info.status ≠ .keyRelease → info.code ≠ 0 ∧ info.code ∈ held) ∧
      (Run.Always report (fun held => held.length ≤ maxKeys) [] events →
        (∀ code ∈ held, ∃ info ∈ app.key, info.code = code ∧ info.status ≠ .keyRelease) ∧
        getKeyPressNum app.key = held.length) := by
  obtain ⟨app, reached⟩ := run_of_room followed_started reported room
  have tracking : Tracking app held := followed_of_run reached
  refine ⟨app, reached, tracking.size, tracking.distinct, ?_, ?_⟩
  · intro info member down
    have known := (tracking.agrees info member).mp down
    exact ⟨fun zero => tracking.real (zero ▸ known), known⟩
  · intro few
    have complete : Complete app held := (covered_of_few covered_started reached few).complete
    refine ⟨fun code known => ?_, tracking.pressNum_eq complete⟩
    obtain ⟨info, member, rfl⟩ := complete code known
    exact ⟨info, member, rfl, (tracking.agrees info member).mpr known⟩

theorem slots_track_keys_two :
    ∃ app, Run.run advance started [.key 30 .keyPress 5, .key 31 .keyPress 9, .key 30 .keyRelease 20] =
        some { app, held := [31] } ∧ app.key.length = maxKeys ∧
      (app.key.Pairwise fun first second => first.code = second.code → first.code = 0) ∧
      (∀ info ∈ app.key, info.status ≠ .keyRelease → info.code ≠ 0 ∧ info.code ∈ [31]) ∧
      (Run.Always report (fun held => held.length ≤ maxKeys) []
          [.key 30 .keyPress 5, .key 31 .keyPress 9, .key 30 .keyRelease 20] →
        (∀ code ∈ [31], ∃ info ∈ app.key, info.code = code ∧ info.status ≠ .keyRelease) ∧
        getKeyPressNum app.key = [31].length) :=
  slots_track_keys (by decide) (by decide)

/-- One key that is pressed and released again and again, with no timeout in between. -/
def clicking (count : Nat) : List Event :=
  (List.replicate count [.key 30 .keyPress 0, .key 30 .keyRelease 0]).flatten

/-- The tracker after so many clicks of the key. -/
def clicked (count : Nat) : Sys where
  app := {
    key := [⟨30, .keyRelease, count⟩, noKey, noKey, noKey]
    startTime := 0
    pressCnt := 0
    keysStatus := .singelKeyPress
    lockCnt := 0 }
  held := []

theorem clicking_add (count more : Nat) : clicking (count + more) = clicking count ++ clicking more := by
  rw [clicking, List.replicate_add, List.flatten_append, clicking, clicking]

theorem report_clicking (count : Nat) : Run.run report [] (clicking count) = some [] := by
  induction count with
  | zero => rfl
  | succ count ih =>
      rw [Nat.add_comm, clicking_add, Run.run_append]
      exact ih

theorem advance_clicking (count : Nat) : Run.run advance (clicked count) (clicking 1) =
    (CInt.checkedCount (count + 1)).bind fun count => some (clicked count) := by
  have press : advance (clicked count) (.key 30 .keyPress 0) =
      (CInt.checkedCount (count + 1)).map fun count =>
        { app := { (clicked 0).app with key := [⟨30, .keyPress, count⟩, noKey, noKey, noKey], lockCnt := 1 }
          held := [30] } := by
    simp [advance, step, report, clicked, inputKeysAnalyse, checkKeyStatus, countLock, placeKey, findKey, recordKey,
      storeKey, countClick, CInt.checked, maxKeys, noKey, List.findIdx_cons, Option.map_eq_bind]
    cases CInt.checkedCount (count + 1) with
    | none => rfl
    | some cnt => rfl
  rw [show clicking 1 = [.key 30 .keyPress 0, .key 30 .keyRelease 0] from rfl, Run.run_cons, press]
  cases CInt.checkedCount (count + 1) with
  | none => rfl
  | some cnt => rfl

theorem advance_clicks (count : Nat) (few : count + 1 < 2 ^ 31) :
    Run.run advance started (clicking (count + 1)) = some (clicked (count + 1)) := by
  induction count with
  | zero => rfl
  | succ count ih =>
      rw [clicking_add, Run.run_append, ih (by omega), Option.bind_some, advance_clicking, CInt.checkedCount, if_pos few]
      rfl

/-- A key that is clicked 2 ^ 31 times is counted beyond the range of `int`. -/
theorem clicks_overflow :
    Run.run report [] (clicking (2 ^ 31)) = some [] ∧ Run.run advance started (clicking (2 ^ 31)) = none := by
  refine ⟨report_clicking _, ?_⟩
  rw [show 2 ^ 31 = (2 ^ 31 - 2 + 1) + 1 by omega, clicking_add, Run.run_append, advance_clicks _ (by omega),
    Option.bind_some, advance_clicking, CInt.checkedCount, if_neg (by omega)]
  rfl

end Runs

end Dwadelib.KeyApp
