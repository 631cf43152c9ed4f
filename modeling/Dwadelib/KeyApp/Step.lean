import Dwadelib.Cells
import Dwadelib.KeyApp
import Mathlib.Data.List.Perm.Basic
import Mathlib.Data.List.Nodup

namespace Dwadelib.KeyApp

/-! # What an event does

The keys that are down are the other half of the system: the kernel reports a press only of a key
that is up, a repeat or a release only of one that is down. What the tracker then does is one of
the `Change`s, and all that is proved about runs follows from these.
-/

variable {app : App} {key : List KeyInfo} {index j : Nat}

abbrev Live (info : KeyInfo) : Prop := info.status ≠ .keyRelease

theorem live_keyPress {code cnt : Nat} : Live { code, status := .keyPress, cnt } :=
  fun released => by contradiction

theorem live_keyRepeat {code cnt : Nat} : Live { code, status := .keyRepeat, cnt } :=
  fun released => by contradiction

/-- The slots with clicks that have not been handled. -/
def pending (key : List KeyInfo) : List KeyInfo := key.filter fun info => info.cnt ≠ 0

/-- Those of them whose key is down. -/
def heldPending (key : List KeyInfo) : List KeyInfo :=
  key.filter fun info => info.cnt ≠ 0 ∧ info.status ≠ .keyRelease

theorem getElem?_getKeyInfoFrom {cnt : Nat} (reached : cnt ≤ index) :
    key[getKeyInfoFrom key index cnt]? = (pending key)[index - cnt]? := by
  induction key generalizing cnt with
  | nil => rfl
  | cons info rest ih =>
      by_cases clicked : info.cnt ≠ 0
      · have front : pending (info :: rest) = info :: pending rest :=
          List.filter_cons_of_pos (by simpa using clicked)
        rw [getKeyInfoFrom, if_pos clicked, front]
        by_cases here : index = cnt
        · rw [if_pos here, here, Nat.sub_self]
          rfl
        · have further : index - cnt = index - (cnt + 1) + 1 := by omega
          rw [if_neg here, List.getElem?_cons_succ, ih (by omega), further, List.getElem?_cons_succ]
      · have front : pending (info :: rest) = pending rest :=
          List.filter_cons_of_neg (by simpa using clicked)
        rw [getKeyInfoFrom, if_neg clicked, front, List.getElem?_cons_succ, ih reached]

theorem getElem?_getKeyInfo : key[getKeyInfo key index]? = (pending key)[index]? :=
  getElem?_getKeyInfoFrom (Nat.zero_le index)

theorem multipleKeyHandler_spec (several : 1 < j) (fits : j ≤ 4) :
    multipleKeyHandler app j =
      [.multipleKeyHandler j (((pending app.key).take j).map KeyInfo.code).reverse] := by
  have read : (fun index => (app.key[getKeyInfo app.key index]?).map KeyInfo.code) =
      fun index => ((pending app.key).map KeyInfo.code)[index]? := by
    funext index
    rw [getElem?_getKeyInfo, List.getElem?_map]
  rw [multipleKeyHandler]
  simp only [and_self, several, fits, if_true, List.filterMap_reverse, read,
    Cells.filterMap_getElem?, List.map_take]

theorem longKeyHandle_spec {cnt : Nat} (within : cnt ≤ (pending app.key).length) :
    longKeyHandle app cnt =
      some ({ app with keysStatus := .longKeyPress }, longKeyReports ((pending app.key).take cnt)) := by
  simp only [longKeyHandle, getElem?_getKeyInfo, Cells.mapM_getElem? within]
  rfl

theorem heldPending_sublist : (heldPending key).Sublist (pending key) := by
  apply List.monotone_filter_right
  intro info both
  simp only [decide_eq_true_eq] at both ⊢
  exact both.1

/-- The click that is handled before a new key takes a slot. -/
def flushed (key : List KeyInfo) : List Report :=
  if getKeyPressNum key = 0 then
    (pending key).head?.toList.map fun info => .singleKeyHandle info.code info.status info.cnt
  else []

inductive Change (app : App) : Event → App → List Report → Prop where
  | waited {now} (early : now - app.startTime < keyLongPressTime ∨ pending app.key = []) :
      Change app (.timeout now) app []
  | clicked {now before slot rest} (early : now - app.startTime < keyLongPressTime) (table : app.key = before ++ slot :: rest)
      (only : pending app.key = [slot]) (up : slot.status = .keyRelease) :
      Change app (.timeout now)
        { app with key := before ++ { slot with cnt := 0, code := 0 } :: rest }
        [.singleKeyHandle slot.code slot.status slot.cnt]
  | longPressed {now} (late : keyLongPressTime ≤ now - app.startTime) (clicks : pending app.key ≠ []) :
      Change app (.timeout now)
        { app with
          key := app.key.map fun info => { info with cnt := 0 }
          keysStatus := .longKeyPress }
        (longKeyReports ((pending app.key).take (heldPending app.key).length))
  | repeated {code later} (known : ∃ info ∈ app.key, info.code = code ∧ Live info) :
      Change app (.key code .keyRepeat later) app [.discareRepeatEvent code .keyRepeat]
  | unknown {code later} (absent : ∀ info ∈ app.key, info.code ≠ code) :
      Change app (.key code .keyRelease later) app [.discareReleaseEvent code]
  | refused {code later} (absent : ∀ info ∈ app.key, info.code ≠ code) (busy : ∀ info ∈ app.key, Live info)
      (room : app.lockCnt + 1 < 2 ^ 31) :
      Change app (.key code .keyPress later) { app with lockCnt := app.lockCnt + 1 } [.tooManyKeysPressed]
  | unplaced {code later} (absent : ∀ info ∈ app.key, info.code ≠ code) (busy : ∀ info ∈ app.key, Live info) :
      Change app (.key code .keyRepeat later) app [.tooManyKeysPressed]
  | pressedAgain {before slot rest code later} (table : app.key = before ++ slot :: rest) (same : slot.code = code)
      (up : slot.status = .keyRelease) (room : app.lockCnt + 1 < 2 ^ 31) :
      Change app (.key code .keyPress later)
        { app with
          key := before ++ { code, status := .keyPress, cnt := slot.cnt + 1 } :: rest
          startTime := later
          lockCnt := app.lockCnt + 1 } []
  | pressed {before slot rest code later} (table : app.key = before ++ slot :: rest) (absent : ∀ info ∈ app.key, info.code ≠ code)
      (busy : ∀ info ∈ before, Live info) (up : slot.status = .keyRelease) (room : app.lockCnt + 1 < 2 ^ 31) :
      Change app (.key code .keyPress later)
        { app with
          key := before ++ { code, status := .keyPress, cnt := 1 } :: rest
          startTime := later
          lockCnt := app.lockCnt + 1 } (flushed app.key)
  | kept {before slot rest code later} (table : app.key = before ++ slot :: rest) (same : slot.code = code)
      (down : slot.status = .keyPress) :
      Change app (.key code .keyRepeat later)
        { app with key := before ++ { code, status := .keyRepeat, cnt := slot.cnt } :: rest } []
  | adopted {before slot rest code later} (table : app.key = before ++ slot :: rest) (absent : ∀ info ∈ app.key, info.code ≠ code)
      (busy : ∀ info ∈ before, Live info) (up : slot.status = .keyRelease) :
      Change app (.key code .keyRepeat later)
        { app with key := before ++ { code, status := .keyRepeat, cnt := 0 } :: rest } (flushed app.key)
  | combined {before slot rest code later} (table : app.key = before ++ slot :: rest) (same : slot.code = code) (down : Live slot)
      (first : app.pressCnt = 0) (several : 1 < getKeyPressNum app.key) :
      Change app (.key code .keyRelease later)
        { app with
          key := before ++ { code, status := .keyRelease, cnt := 0 } :: rest
          pressCnt := getKeyPressNum app.key
          startTime := later
          lockCnt := app.lockCnt - 1 } (multipleKeyHandler app (getKeyPressNum app.key))
  | dissolved {before slot rest code later} (table : app.key = before ++ slot :: rest) (same : slot.code = code) (down : Live slot)
      (again : app.pressCnt ≠ 0) (several : 1 < getKeyPressNum app.key) :
      Change app (.key code .keyRelease later)
        { app with
          key := before ++ { code, status := .keyRelease, cnt := 0 } :: rest
          pressCnt := getKeyPressNum app.key - 1
          lockCnt := app.lockCnt - 1 } []
  | ended {before slot rest code later} (table : app.key = before ++ slot :: rest) (same : slot.code = code) (down : Live slot)
      (again : app.pressCnt ≠ 0) (last : getKeyPressNum app.key = 1) :
      Change app (.key code .keyRelease later)
        { app with key := List.replicate maxKeys noKey, pressCnt := 0, lockCnt := app.lockCnt - 1 } []
  | released {before slot rest code later} (table : app.key = before ++ slot :: rest) (same : slot.code = code) (down : Live slot)
      (alone : app.pressCnt = 0) (last : getKeyPressNum app.key = 1) :
      Change app (.key code .keyRelease later)
        { app with
          key := before ++ { code, status := .keyRelease, cnt := slot.cnt } :: rest
          keysStatus := if app.keysStatus = .longKeyPress then .singelKeyPress else app.keysStatus
          lockCnt := app.lockCnt - 1 }
        (if app.keysStatus = .longKeyPress then [.singleLongKeyRelease code] else [])

variable {before rest : List KeyInfo} {info slot : KeyInfo} {code : Nat} {value : KeyValue} {later now : Int}
  {held : List Nat} {event : Event}

theorem countP_pending : (key.countP fun info => info.cnt ≠ 0) = (pending key).length :=
  List.countP_eq_length_filter

theorem countP_heldPending :
    (key.countP fun info => info.cnt ≠ 0 ∧ info.status ≠ .keyRelease) = (heldPending key).length :=
  List.countP_eq_length_filter

/-- The only slot with clicks, with the slots on both sides of it. -/
theorem getKeyInfo_split (only : pending key = [slot]) :
    ∃ before rest, key = before ++ slot :: rest ∧ getKeyInfo key 0 = before.length := by
  unfold getKeyInfo
  induction key with
  | nil => contradiction
  | cons info others ih =>
      by_cases clicked : info.cnt ≠ 0
      · have front : pending (info :: others) = info :: pending others :=
          List.filter_cons_of_pos (by simpa using clicked)
        obtain ⟨rfl, -⟩ := List.cons.inj (front.symm.trans only)
        refine ⟨[], others, rfl, ?_⟩
        rw [getKeyInfoFrom, if_pos clicked, if_pos rfl, List.length_nil]
      · have front : pending (info :: others) = pending others :=
          List.filter_cons_of_neg (by simpa using clicked)
        obtain ⟨before, rest, rfl, index⟩ := ih (front.symm.trans only)
        refine ⟨info :: before, rest, rfl, ?_⟩
        rw [getKeyInfoFrom, if_neg clicked, index, List.length_cons]

theorem change_of_timeout :
    ∃ next reports, inputKeysAnalyse app (.timeout now) = some (next, reports) ∧
      Change app (.timeout now) next reports := by
  simp only [inputKeysAnalyse, checkPollTimeout, countP_pending, countP_heldPending, List.length_eq_zero_iff]
  by_cases quiet : pending app.key = []
  · exact ⟨_, _, by rw [if_pos quiet], .waited (.inr quiet)⟩
  rw [if_neg quiet]
  by_cases late : keyLongPressTime ≤ now - app.startTime
  · have within : (heldPending app.key).length ≤ (pending app.key).length := heldPending_sublist.length_le
    rw [if_pos late, longKeyHandle_spec within]
    exact ⟨_, _, rfl, .longPressed late quiet⟩
  rw [if_neg late]
  have early : now - app.startTime < keyLongPressTime := by omega
  by_cases one : now - app.startTime ≥ keyClickGap ∧ (pending app.key).length = 1
  · obtain ⟨slot, only⟩ := List.length_eq_one_iff.mp one.2
    obtain ⟨before, rest, table, index⟩ := getKeyInfo_split only
    rw [if_pos one, getElem?_getKeyInfo, only]
    by_cases up : slot.status = .keyRelease
    · refine ⟨_, _, ?_, .clicked early table only up⟩
      simp only [List.getElem?_cons_zero, up, if_true]
      rw [clearKey, index, table, Cells.modify_middle, up]
    · refine ⟨_, _, ?_, .waited (.inl early)⟩
      simp only [List.getElem?_cons_zero, up, if_false]
  · exact ⟨_, _, by rw [if_neg one], .waited (.inl early)⟩

/-- Each key that is down is counted as a lock, and `int` holds the count. -/
structure Locked (app : App) (held : List Nat) : Prop where
  counted : (held.length : Int) ≤ app.lockCnt
  fits : app.lockCnt < 2 ^ 31

/-- No two slots have one code, and those that are live have the codes of keys that are down. -/
structure Tracking (app : App) (held : List Nat) : Prop where
  size : app.key.length = maxKeys
  single : held.Nodup
  real : 0 ∉ held
  distinct : app.key.Pairwise fun first second => first.code = second.code → first.code = 0
  agrees : ∀ info ∈ app.key, Live info ↔ info.code ∈ held
  locked : Locked app held

/-- The keys that are down afterwards, if the kernel can report the event. -/
def report (held : List Nat) : Event → Option (List Nat)
  | .timeout _ => some held
  | .key code .keyPress _ => if code ≠ 0 ∧ code ∉ held then some (code :: held) else none
  | .key code .keyRepeat _ => if code ∈ held then some held else none
  | .key code .keyRelease _ => if code ∈ held then some (held.erase code) else none

/-- A press leaves the counters within `int`: that of the locks and, if the key has a slot, that of its clicks. -/
def Room (app : App) : Event → Prop
  | .key code .keyPress _ =>
      app.lockCnt + 1 < 2 ^ 31 ∧ ∀ info ∈ app.key, info.code = code → info.cnt + 1 < 2 ^ 31
  | _ => True

instance decidableRoom (app : App) : (event : Event) → Decidable (Room app event)
  | .timeout _ => instDecidableTrue
  | .key _ .keyRelease _ => instDecidableTrue
  | .key _ .keyPress _ => inferInstanceAs (Decidable (_ ∧ _))
  | .key _ .keyRepeat _ => instDecidableTrue

theorem countLock_press (counted : 0 ≤ app.lockCnt) (room : app.lockCnt + 1 < 2 ^ 31) :
    countLock app .keyPress = some { app with lockCnt := app.lockCnt + 1 } := by
  rw [countLock, CInt.checked_eq (by omega) room]
  rfl

theorem countLock_full (full : 2 ^ 31 ≤ app.lockCnt + 1) : countLock app .keyPress = none := by
  rw [countLock, CInt.checked_above full]
  rfl

theorem countLock_release (counted : 0 < app.lockCnt) (fits : app.lockCnt < 2 ^ 31) :
    countLock app .keyRelease = some { app with lockCnt := app.lockCnt - 1 } := by
  rw [countLock, CInt.checked_eq (by omega) (by omega)]
  rfl

theorem storeKey_press (table : app.key = before ++ slot :: rest) (up : slot.status = .keyRelease) :
    storeKey app before.length code .keyPress =
      (CInt.checkedCount (slot.cnt + 1)).map fun cnt =>
        { app with key := before ++ { code, status := .keyPress, cnt } :: rest } := by
  have counted : countClick slot .keyPress = CInt.checkedCount (slot.cnt + 1) := if_pos ⟨up, by decide⟩
  simp only [storeKey, table, Cells.getElem?_middle, Option.bind_eq_bind, Option.bind_some, counted,
    Cells.modify_middle, Option.map_eq_bind]
  rfl

theorem storeKey_press_room (table : app.key = before ++ slot :: rest) (up : slot.status = .keyRelease)
    (room : slot.cnt + 1 < 2 ^ 31) :
    storeKey app before.length code .keyPress =
      some { app with key := before ++ { code, status := .keyPress, cnt := slot.cnt + 1 } :: rest } := by
  rw [storeKey_press table up, CInt.checkedCount, if_pos room]
  rfl

/-- Only presses and releases that find a released slot are counted. -/
theorem storeKey_other (table : app.key = before ++ slot :: rest)
    (other : ¬ (slot.status = .keyRelease ∧ value ≠ .keyRepeat)) :
    storeKey app before.length code value =
      some { app with key := before ++ { code, status := value, cnt := slot.cnt } :: rest } := by
  have counted : countClick slot value = some slot.cnt := if_neg other
  simp only [storeKey, table, Cells.getElem?_middle, Option.bind_eq_bind, Option.bind_some, counted,
    Cells.modify_middle]

theorem clearKey_middle (table : app.key = before ++ slot :: rest) :
    clearKey app before.length =
      { app with key := before ++ { slot with cnt := 0, code := 0 } :: rest } := by
  simp only [clearKey, table, Cells.modify_middle]

theorem takeKey_free (table : app.key = before ++ slot :: rest) (inside : before.length ≠ maxKeys)
    (index : app.key.findIdx (fun info => info.code = 0 ∨ info.status = .keyRelease) = before.length) :
    takeKey app =
      ({ app with key := before ++ { slot with cnt := 0 } :: rest }, before.length, flushed app.key) := by
  have emptied : app.key.modify before.length (fun info => { info with cnt := 0 }) =
      before ++ { slot with cnt := 0 } :: rest := by
    rw [table, Cells.modify_middle]
  rw [takeKey]
  simp only [index, if_neg inside, emptied, Prod.mk.injEq, true_and]
  rw [flushed, getElem?_getKeyInfo, List.head?_eq_getElem?]
  cases (pending app.key)[0]? with
  | none => rfl
  | some info => rfl

section Tracked

variable (tracking : Tracking app held)
include tracking

theorem Tracking.up_of_code_zero (member : info ∈ app.key) (free : info.code = 0 ∨ info.status = .keyRelease) :
    info.status = .keyRelease := by
  rcases free with unused | up
  · by_contra down
    have known := (tracking.agrees info member).mp down
    rw [unused] at known
    exact tracking.real known
  · exact up

/-- The slot of a key, and that no other slot has its code. -/
theorem Tracking.slot_split (known : ∃ info ∈ app.key, info.code = code) (real : code ≠ 0) :
    ∃ before slot rest, app.key = before ++ slot :: rest ∧ slot.code = code ∧
      (∀ info ∈ before ++ rest, info.code ≠ code) ∧
      app.key.findIdx (fun info => info.code = code) = before.length ∧ before.length ≠ maxKeys := by
  have found : ∃ info ∈ app.key, decide (info.code = code) = true := by simpa using known
  obtain ⟨before, slot, rest, table, same, others, index⟩ := Cells.findIdx_split found
  have size := tracking.size
  have distinct := tracking.distinct
  rw [table] at size distinct
  rw [List.length_append, List.length_cons] at size
  simp only [decide_eq_true_eq, decide_eq_false_iff_not] at same others
  refine ⟨before, slot, rest, table, same, ?_, index, by omega⟩
  intro info member
  rcases List.mem_append.mp member with early | late
  · exact others info early
  · intro again
    have pairwise := (List.pairwise_append.mp distinct).2.1
    have zero := (List.pairwise_cons.mp pairwise).1 info late (same.trans again.symm)
    exact real (same.symm.trans zero)

omit tracking in
/-- The other slots have other codes. -/
theorem status_ne (table : app.key = before ++ slot :: rest) (others : ∀ info ∈ before ++ rest, info.code ≠ code)
    (changed : slot.status ≠ value) : ∀ info ∈ app.key, info.code = code → info.status ≠ value := by
  rw [table]
  intro info member same
  rw [List.mem_append, List.mem_cons] at member
  rcases member with left | rfl | right
  · exact absurd same (others info (List.mem_append_left _ left))
  · exact changed
  · exact absurd same (others info (List.mem_append_right _ right))

/-- An event that is not taken for a repetition or for that of an unknown key is counted. -/
theorem Tracking.checkKeyStatus_accepted (fresh : ∀ info ∈ app.key, info.code = code → info.status ≠ value)
    (known : value = .keyRelease → ∃ info ∈ app.key, info.code = code) :
    checkKeyStatus app code value later = (countLock app value).bind fun app => placeKey app code value later := by
  rw [checkKeyStatus, if_neg, if_neg]
  · intro none
    obtain ⟨info, member, same⟩ := known none.2
    have all := none.1
    rw [← tracking.size, List.countP_eq_length] at all
    have different := all info member
    simp only [decide_eq_true_eq] at different
    exact different same
  · rw [List.any_eq_true]
    intro again
    obtain ⟨info, member, both⟩ := again
    simp only [decide_eq_true_eq] at both
    exact fresh info member both.1 both.2

omit tracking in
/-- The event of a key that has a slot is recorded there. -/
theorem placeKey_known (index : app.key.findIdx (fun info => info.code = code) = before.length)
    (inside : before.length ≠ maxKeys) :
    placeKey app code value later = recordKey app before.length code value later := by
  simp only [placeKey, findKey, index, if_neg inside, List.nil_append, Option.map_id']

/-- A key without a slot gets the first free one. -/
theorem Tracking.placeKey_absent {counted : App} (key : counted.key = app.key)
    (absent : ∀ info ∈ app.key, info.code ≠ code) :
    (∀ info ∈ app.key, Live info) ∧ placeKey counted code value later = some (counted, [.tooManyKeysPressed]) ∨
      ∃ before slot rest, app.key = before ++ slot :: rest ∧ (∀ info ∈ before, Live info) ∧
        slot.status = .keyRelease ∧
        placeKey counted code value later =
          (recordKey { counted with key := before ++ { slot with cnt := 0 } :: rest } before.length code value
            later).map fun result => (result.1, flushed app.key ++ result.2) := by
  have unknown : counted.key.findIdx (fun info => info.code = code) = maxKeys := by
    rw [key, ← tracking.size, List.findIdx_eq_length]
    intro info member
    simpa using absent info member
  by_cases free : ∃ info ∈ app.key, decide (info.code = 0 ∨ info.status = .keyRelease) = true
  · obtain ⟨before, slot, rest, table, unused, busy, index⟩ := Cells.findIdx_split free
    have size := tracking.size
    rw [table, List.length_append, List.length_cons] at size
    have inside : before.length ≠ maxKeys := by omega
    simp only [decide_eq_true_eq, decide_eq_false_iff_not] at unused busy
    refine .inr ⟨before, slot, rest, table, ?_, ?_, ?_⟩
    · intro info member released
      exact busy info member (.inr released)
    · refine tracking.up_of_code_zero ?_ unused
      rw [table]
      exact List.mem_append_right _ List.mem_cons_self
    · have taken : takeKey counted = ({ counted with key := before ++ { slot with cnt := 0 } :: rest },
          before.length, flushed counted.key) :=
        takeKey_free (by rw [key]; exact table) inside (by rw [key]; exact index)
      rw [key] at taken
      simp only [placeKey, findKey, unknown, if_true, taken, if_neg inside]
  · have full : counted.key.findIdx (fun info => info.code = 0 ∨ info.status = .keyRelease) = maxKeys := by
      rw [key, ← tracking.size, List.findIdx_eq_length]
      intro info member
      by_contra unused
      exact free ⟨info, member, by simpa only [Bool.not_eq_false] using unused⟩
    refine .inl ⟨?_, ?_⟩
    · intro info member released
      exact free ⟨info, member, by simp [released]⟩
    · simp only [placeKey, findKey, takeKey, unknown, full, if_true, List.nil_append]

theorem Tracking.lockCnt_nonneg : 0 ≤ app.lockCnt :=
  Int.le_trans (Int.natCast_nonneg _) tracking.locked.counted

theorem Tracking.up_of_not_held (member : info ∈ app.key) (up : info.code ∉ held) : info.status = .keyRelease := by
  by_contra down
  exact up ((tracking.agrees info member).mp down)

/-- The press of a key that is up is always counted. -/
theorem Tracking.checkKeyStatus_press (up : code ∉ held) :
    checkKeyStatus app code .keyPress later =
      (countLock app .keyPress).bind fun app => placeKey app code .keyPress later := by
  refine tracking.checkKeyStatus_accepted ?_ fun released => by contradiction
  intro info member same
  rw [tracking.up_of_not_held member (same.symm ▸ up)]
  decide

theorem Tracking.change_of_press (real : code ≠ 0) (up : code ∉ held) (room : Room app (.key code .keyPress later)) :
    ∃ next reports, checkKeyStatus app code .keyPress later = some (next, reports) ∧
      Change app (.key code .keyPress later) next reports := by
  obtain ⟨lockRoom, cntRoom⟩ := room
  rw [tracking.checkKeyStatus_press up, countLock_press tracking.lockCnt_nonneg lockRoom, Option.bind_some]
  by_cases known : ∃ info ∈ app.key, info.code = code
  · obtain ⟨before, slot, rest, table, same, others, index, inside⟩ := tracking.slot_split known real
    have member : slot ∈ app.key := by
      rw [table]
      exact List.mem_append_right _ List.mem_cons_self
    have released : slot.status = .keyRelease := tracking.up_of_not_held member (same.symm ▸ up)
    refine ⟨_, _, ?_, .pressedAgain table same released lockRoom⟩
    rw [placeKey_known (by exact index) inside, recordKey, storeKey_press_room (by exact table) released (cntRoom slot member same)]
    rfl
  · have absent : ∀ info ∈ app.key, info.code ≠ code := fun info member same => known ⟨info, member, same⟩
    rcases tracking.placeKey_absent (show { app with lockCnt := app.lockCnt + 1 }.key = app.key from rfl) absent with
      ⟨busy, full⟩ | ⟨before, slot, rest, table, busy, released, taken⟩
    · exact ⟨_, _, full, .refused absent busy lockRoom⟩
    · refine ⟨_, _, ?_, .pressed table absent busy released lockRoom⟩
      rw [taken, recordKey, storeKey_press_room rfl (by exact released) (show 0 + 1 < 2 ^ 31 by decide)]
      simp only [Option.map_some, List.append_nil, Nat.zero_add]

/-- Without room in one of the counters a press is undefined. -/
theorem Tracking.undefined_of_press (real : code ≠ 0) (up : code ∉ held)
    (none : ¬ Room app (.key code .keyPress later)) : checkKeyStatus app code .keyPress later = .none := by
  rw [tracking.checkKeyStatus_press up]
  by_cases lockRoom : app.lockCnt + 1 < 2 ^ 31
  · obtain ⟨info, member, same, clicked⟩ :
        ∃ info ∈ app.key, info.code = code ∧ ¬ info.cnt + 1 < 2 ^ 31 := by
      by_contra few
      exact none ⟨lockRoom, fun info member same => by
        by_contra clicked
        exact few ⟨info, member, same, clicked⟩⟩
    obtain ⟨before, slot, rest, table, -, others, index, inside⟩ := tracking.slot_split ⟨info, member, same⟩ real
    have only : info = slot := by
      by_contra different
      rw [table, List.mem_append, List.mem_cons] at member
      refine others info (List.mem_append.mpr ?_) same
      exact member.imp_right fun right => right.resolve_left different
    subst only
    rw [countLock_press tracking.lockCnt_nonneg lockRoom, Option.bind_some, placeKey_known (by exact index) inside, recordKey,
      storeKey_press (by exact table) (tracking.up_of_not_held member (same.symm ▸ up)), CInt.checkedCount, if_neg clicked]
    rfl
  · rw [countLock_full (Int.not_lt.mp lockRoom)]
    rfl

theorem Tracking.change_of_repeat (down : code ∈ held) :
    ∃ next reports, checkKeyStatus app code .keyRepeat later = some (next, reports) ∧
      Change app (.key code .keyRepeat later) next reports := by
  have real : code ≠ 0 := fun zero => tracking.real (zero ▸ down)
  by_cases known : ∃ info ∈ app.key, info.code = code
  · obtain ⟨before, slot, rest, table, same, others, index, inside⟩ := tracking.slot_split known real
    have member : slot ∈ app.key := by
      rw [table]
      exact List.mem_append_right _ List.mem_cons_self
    have live : Live slot := (tracking.agrees slot member).mpr (same.symm ▸ down)
    by_cases again : slot.status = .keyRepeat
    · refine ⟨app, _, ?_, .repeated ⟨slot, member, same, live⟩⟩
      rw [checkKeyStatus, if_pos]
      rw [List.any_eq_true]
      exact ⟨slot, member, by simp [same, again]⟩
    · have pressed : slot.status = .keyPress := by
        cases status : slot.status with
        | keyRelease => exact absurd status live
        | keyPress => rfl
        | keyRepeat => exact absurd status again
      refine ⟨_, _, ?_, .kept table same pressed⟩
      rw [tracking.checkKeyStatus_accepted (status_ne table others again) fun released => by contradiction,
        countLock, Option.bind_some, placeKey_known (by exact index) inside, recordKey, storeKey_other table (fun both => both.2 rfl)]
      rfl
  · have absent : ∀ info ∈ app.key, info.code ≠ code := fun info member same => known ⟨info, member, same⟩
    rw [tracking.checkKeyStatus_accepted (fun info member same => absurd same (absent info member))
      fun released => by contradiction, countLock, Option.bind_some]
    rcases tracking.placeKey_absent (Eq.refl app.key) absent with
      ⟨busy, full⟩ | ⟨before, slot, rest, table, busy, released, taken⟩
    · exact ⟨_, _, full, .unplaced absent busy⟩
    · refine ⟨_, _, ?_, .adopted table absent busy released⟩
      rw [taken, recordKey, storeKey_other rfl (fun both => both.2 rfl)]
      simp only [Option.map_some, List.append_nil]

theorem Tracking.checkKeyStatus_unknown (absent : ∀ info ∈ app.key, info.code ≠ code) :
    checkKeyStatus app code .keyRelease later = some (app, [.discareReleaseEvent code]) := by
  rw [checkKeyStatus, if_neg, if_pos]
  · refine ⟨?_, rfl⟩
    rw [← tracking.size, List.countP_eq_length]
    intro info member
    simpa using absent info member
  · rw [List.any_eq_true]
    intro again
    obtain ⟨info, member, both⟩ := again
    simp only [decide_eq_true_eq] at both
    exact absent info member both.1

omit tracking in
/-- What the release of a key that has a slot comes to. -/
theorem change_of_slot (table : app.key = before ++ slot :: rest) (same : slot.code = code) (live : Live slot) :
    ∃ next reports, releaseKey { app with lockCnt := app.lockCnt - 1 } before.length code later = some (next, reports) ∧
      Change app (.key code .keyRelease later) next reports := by
  have member : slot ∈ app.key := by
    rw [table]
    exact List.mem_append_right _ List.mem_cons_self
  have some : getKeyPressNum app.key ≠ 0 := by
    rw [getKeyPressNum, Ne, List.countP_eq_zero]
    intro none
    exact none slot member (by simpa using live)
  simp only [releaseKey, if_neg some]
  by_cases first : app.pressCnt = 0
  · by_cases several : 1 < getKeyPressNum app.key
    · refine ⟨_, _, ?_, .combined table same live first several⟩
      rw [if_pos ⟨first, several⟩, clearKey_middle (by exact table), storeKey_other rfl (by exact fun both => live both.1)]
      rfl
    · have last : getKeyPressNum app.key = 1 := by omega
      refine ⟨_, _, ?_, .released table same live first last⟩
      rw [if_neg fun both => several both.2, if_neg fun both => both.1 first, if_pos ⟨first, last⟩]
      by_cases long : app.keysStatus = .longKeyPress
      · rw [if_pos long, if_pos long, if_pos long, storeKey_other (by exact table) (fun both => live both.1), table,
          Cells.getElem?_middle, ← same]
        rfl
      · rw [if_neg long, if_neg long, if_neg long, storeKey_other (by exact table) (fun both => live both.1)]
        rfl
  · by_cases several : 1 < getKeyPressNum app.key
    · refine ⟨_, _, ?_, .dissolved table same live first several⟩
      rw [if_neg fun both => first both.1, if_pos ⟨first, by omega⟩, if_neg (by omega), keyReleaseModify,
        if_neg (by omega), clearKey_middle (by exact table), storeKey_other rfl (by exact fun both => live both.1)]
      rfl
    · have last : getKeyPressNum app.key = 1 := by omega
      refine ⟨_, _, ?_, .ended table same live first last⟩
      rw [if_neg fun both => first both.1, if_pos ⟨first, by omega⟩, if_pos last, keyReleaseModify,
        if_pos last]
      rfl

theorem Tracking.change_of_release (down : code ∈ held) :
    ∃ next reports, checkKeyStatus app code .keyRelease later = some (next, reports) ∧
      Change app (.key code .keyRelease later) next reports := by
  have real : code ≠ 0 := fun zero => tracking.real (zero ▸ down)
  by_cases known : ∃ info ∈ app.key, info.code = code
  · obtain ⟨before, slot, rest, table, same, others, index, inside⟩ := tracking.slot_split known real
    have live : Live slot := by
      refine (tracking.agrees slot ?_).mpr (same.symm ▸ down)
      rw [table]
      exact List.mem_append_right _ List.mem_cons_self
    have counted : 0 < app.lockCnt := by
      have some := List.length_pos_of_mem down
      have each := tracking.locked.counted
      omega
    rw [tracking.checkKeyStatus_accepted (status_ne table others live) fun _ => known,
      countLock_release counted tracking.locked.fits, Option.bind_some, placeKey_known (by exact index) inside, recordKey]
    exact change_of_slot table same live
  · exact ⟨_, _, tracking.checkKeyStatus_unknown fun info member same => known ⟨info, member, same⟩,
      .unknown fun info member same => known ⟨info, member, same⟩⟩

/-- Whatever the kernel reports, the tracker makes one of the changes while its counters have room. -/
theorem Tracking.change_of_report {after : List Nat} (reported : report held event = some after)
    (room : Room app event) :
    ∃ next reports, inputKeysAnalyse app event = some (next, reports) ∧ Change app event next reports := by
  cases event with
  | timeout now => exact change_of_timeout
  | key code value later =>
      cases value with
      | keyPress =>
          simp only [report, Option.ite_none_right_eq_some] at reported
          exact tracking.change_of_press reported.1.1 reported.1.2 room
      | keyRepeat =>
          simp only [report, Option.ite_none_right_eq_some] at reported
          exact tracking.change_of_repeat reported.1
      | keyRelease =>
          simp only [report, Option.ite_none_right_eq_some] at reported
          exact tracking.change_of_release reported.1

theorem Tracking.undefined_of_report {after : List Nat} (reported : report held event = some after)
    (none : ¬ Room app event) : inputKeysAnalyse app event = .none := by
  cases event with
  | timeout now => exact absurd trivial none
  | key code value later =>
      cases value with
      | keyPress =>
          simp only [report, Option.ite_none_right_eq_some] at reported
          exact tracking.undefined_of_press reported.1.1 reported.1.2 none
      | keyRepeat => exact absurd trivial none
      | keyRelease => exact absurd trivial none

end Tracked

end Dwadelib.KeyApp
