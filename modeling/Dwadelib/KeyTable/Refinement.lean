import Dwadelib.KeyApp.Counters
import Dwadelib.KeyTable.Lookups
import Dwadelib.Run

namespace Dwadelib.KeyTable

open KeyApp (maxKeys App trackerStep)

/-! # The table and the tracker

The table holds what the tracker of the other model holds, as long as no counter overflows there.
-/

variable {keys : Keys} {app after : App} {reports : List KeyApp.Report} {value : KeyApp.KeyValue} {slot : KeyApp.KeyInfo} {i j : Nat} {code : Nat}
  {type later : Int}

def valueOf : KeyApp.KeyValue → Int
  | .keyRelease => keyRelease
  | .keyPress => keyPress
  | .keyRepeat => keyRepeat

def statusOf : KeyApp.KeysStatus → Int
  | .singelKeyPress => 0
  | .singelKeyRelease => 1
  | .longKeyPress => longKeyPress

def infoOf (info : KeyApp.KeyInfo) : KeyInfo where
  code := info.code
  status := valueOf info.status
  cnt := info.cnt

structure Represents (keys : Keys) (app : App) : Prop where
  key : keys.key = app.key.map infoOf
  startTime : keys.startTime = app.startTime
  pressCnt : keys.pressCnt = app.pressCnt
  keysStatus : keys.keysStatus = statusOf app.keysStatus
  lockCnt : keys.lockCnt = app.lockCnt

theorem valueOf_inj {other : KeyApp.KeyValue} : valueOf value = valueOf other ↔ value = other := by
  cases value <;> cases other <;> decide

theorem statusOf_long {status : KeyApp.KeysStatus} : statusOf status = longKeyPress ↔ status = .longKeyPress := by
  cases status <;> decide

theorem released_iff : (infoOf slot).status = keyRelease ↔ slot.status = .keyRelease := by
  show valueOf slot.status = valueOf .keyRelease ↔ _
  exact valueOf_inj

theorem code_iff : (infoOf slot).code = code ↔ slot.code = code := Int.natCast_inj

theorem cnt_iff : (infoOf slot).cnt ≠ 0 ↔ slot.cnt ≠ 0 := not_congr Int.natCast_eq_zero

section Represented

variable (represents : Represents keys app) {test : KeyInfo → Bool} {wanted : KeyApp.KeyInfo → Bool}
include represents

theorem Represents.countP (same : ∀ info, test (infoOf info) = wanted info) :
    keys.key.countP test = app.key.countP wanted := by
  rw [represents.key, List.countP_map]
  exact congrArg (List.countP · app.key) (funext same)

theorem Represents.any (same : ∀ info, test (infoOf info) = wanted info) : keys.key.any test = app.key.any wanted := by
  rw [represents.key, List.any_map]
  exact congrArg (List.any app.key) (funext same)

theorem Represents.findIdx (same : ∀ info, test (infoOf info) = wanted info) :
    keys.key.findIdx test = app.key.findIdx wanted := by
  rw [represents.key, List.findIdx_map]
  exact congrArg (List.findIdx · app.key) (funext same)

theorem Represents.size : app.key.length = maxKeys := by
  rw [← keys.size, represents.key, List.length_map]

theorem Represents.pressNum : getKeyPressNum keys = KeyApp.getKeyPressNum app.key :=
  represents.countP fun _ => decide_eq_decide.mpr (not_congr released_iff)

theorem Represents.clicks :
    (keys.key.countP fun info => info.cnt ≠ 0) = app.key.countP fun info => info.cnt ≠ 0 :=
  represents.countP fun _ => decide_eq_decide.mpr cnt_iff

theorem Represents.findIdx_le : app.key.findIdx wanted ≤ maxKeys := by
  rw [← represents.size]
  exact List.findIdx_le_length

theorem Represents.looked (inside : i < maxKeys) :
    ∃ slot, app.key[i]? = some slot ∧ (look keys i).Yields Inside (infoOf slot) := by
  have room : i < app.key.length := by
    rw [represents.size]
    exact inside
  obtain ⟨info, found, looked⟩ : ∃ info, keys.key[i]? = some info ∧ (look keys i).Yields Inside info := look_yields inside
  rw [represents.key, List.getElem?_map, List.getElem?_eq_getElem room, Option.map_some] at found
  obtain rfl := Option.some.inj found
  exact ⟨app.key[i], List.getElem?_eq_getElem room, looked⟩

theorem Represents.assigned {change : KeyInfo → KeyInfo} {other : KeyApp.KeyInfo → KeyApp.KeyInfo}
    (same : ∀ slot, app.key[i]? = some slot → change (infoOf slot) = infoOf (other slot)) :
    Represents (changed keys i change) { app with key := app.key.modify i other } := by
  refine ⟨?_, represents.startTime, represents.pressCnt, represents.keysStatus, represents.lockCnt⟩
  show keys.key.modify i change = (app.key.modify i other).map infoOf
  apply List.ext_getElem?
  intro place
  rw [represents.key, List.getElem?_modify, List.getElem?_map, List.getElem?_map, List.getElem?_modify]
  cases found : app.key[place]? with
  | none => rfl
  | some slot =>
      by_cases here : i = place
      · subst here
        simp only [Option.map_eq_map, Option.map_some, if_true, same slot found]
      · simp only [Option.map_eq_map, Option.map_some, if_neg here]

end Represented

theorem getKeyInfoFrom_infoOf (key : List KeyApp.KeyInfo) (index cnt : Nat) :
    getKeyInfoFrom (key.map infoOf) index cnt = KeyApp.getKeyInfoFrom key index cnt := by
  induction key generalizing cnt with
  | nil => rfl
  | cons info rest ih =>
      rw [List.map_cons, getKeyInfoFrom, KeyApp.getKeyInfoFrom, ih, ih]
      by_cases click : info.cnt ≠ 0
      · rw [if_pos click, if_pos (cnt_iff.mpr click)]
      · rw [if_neg click, if_neg (cnt_iff.not.mpr click)]

theorem Represents.keyInfo (represents : Represents keys app) (index : Nat) :
    getKeyInfo keys index = KeyApp.getKeyInfo app.key index := by
  rw [getKeyInfo, represents.key]
  exact getKeyInfoFrom_infoOf app.key index 0

theorem Represents.cleared (represents : Represents keys app) :
    Represents (changed keys i fun info => { info with cnt := 0, code := 0 }) (KeyApp.clearKey app i) :=
  represents.assigned fun _ _ => rfl

theorem Represents.initialized (represents : Represents keys app) : Represents (keysInit keys) (KeyApp.keysInit app) := by
  refine ⟨?_, represents.startTime, rfl, represents.keysStatus, represents.lockCnt⟩
  show keys.key.map (fun _ => noKey) = (List.replicate maxKeys KeyApp.noKey).map infoOf
  rw [List.map_const', keys.size, List.map_replicate]
  rfl

section Timeout

variable (represents : Represents keys app) {tm : Int}
include represents

/-- Long keys were pressed. -/
theorem longTimeout_refines (some : (app.key.countP fun info => info.cnt ≠ 0) ≠ 0) (late : tm ≥ KeyApp.keyLongPressTime) :
    ∃ now after, (checkPollTimeout keys tm).Yields Inside now ∧
      (KeyApp.checkPollTimeout app tm).map Prod.fst = .some after ∧ Represents now after := by
  have within : (KeyApp.heldPending app.key).length ≤ (KeyApp.pending app.key).length :=
    KeyApp.heldPending_sublist.length_le
  have cleared : Represents (assignAll { keys with keysStatus := longKeyPress } fun info => { info with cnt := 0 })
      { app with key := app.key.map fun info => { info with cnt := 0 }, keysStatus := .longKeyPress } := by
    refine ⟨?_, represents.startTime, represents.pressCnt, rfl, represents.lockCnt⟩
    show keys.key.map _ = _
    rw [represents.key, List.map_map, List.map_map]
    rfl
  refine ⟨_, _, ?_, ?_, cleared⟩
  · rw [checkPollTimeout, represents.clicks, if_neg some, if_pos late]
    exact Traced.yields_bind (longKeyHandle_yields held_le_clicked) Traced.yields_pure
  · rw [KeyApp.checkPollTimeout, if_neg some, if_pos late, KeyApp.countP_heldPending]
    simp only [KeyApp.longKeyHandle_spec within]
    rfl

/-- One key was clicked; it may be down still. -/
theorem clickTimeout_refines (single : (app.key.countP fun info => info.cnt ≠ 0) = 1)
    (early : ¬ tm ≥ KeyApp.keyLongPressTime) (gap : tm ≥ KeyApp.keyClickGap) :
    ∃ now after, (checkPollTimeout keys tm).Yields Inside now ∧
      (KeyApp.checkPollTimeout app tm).map Prod.fst = some after ∧ Represents now after := by
  have some : (app.key.countP fun info => info.cnt ≠ 0) ≠ 0 := by omega
  have clicks : 0 < clicked keys := by
    rw [clicked, represents.clicks]
    omega
  have inside := getKeyInfo_lt clicks
  obtain ⟨slot, found, looked⟩ := represents.looked inside
  have table := found
  rw [represents.keyInfo] at table
  rw [checkPollTimeout, represents.clicks, if_neg some, if_neg early, if_pos gap, if_pos single,
    if_neg (Nat.not_le.mpr inside), KeyApp.checkPollTimeout, if_neg some, if_neg early, if_pos ⟨gap, single⟩]
  simp only [table]
  by_cases released : slot.status = .keyRelease
  · have cleared : Represents (changed keys (getKeyInfo keys 0) _) (KeyApp.clearKey app (getKeyInfo keys 0)) :=
      represents.cleared
    refine ⟨_, _, Traced.yields_bind looked ?_, ?_, cleared⟩
    · rw [if_pos (released_iff.mpr released)]
      exact Traced.yields_bind singleKeyHandle_yields (assign_yields inside)
    · rw [if_pos released, represents.keyInfo]
      rfl
  · refine ⟨keys, app, Traced.yields_bind looked ?_, ?_, represents⟩
    · rw [if_neg (released_iff.not.mpr released)]
      exact Traced.yields_pure
    · rw [if_neg released]
      rfl

theorem checkPollTimeout_refines (tm : Int) :
    ∃ now after, (checkPollTimeout keys tm).Yields Inside now ∧
      (KeyApp.checkPollTimeout app tm).map Prod.fst = some after ∧ Represents now after := by
  by_cases quiet : (app.key.countP fun info => info.cnt ≠ 0) = 0
  · refine ⟨keys, app, ?_, ?_, represents⟩
    · rw [checkPollTimeout, represents.clicks, if_pos quiet]
      exact Traced.yields_pure
    · rw [KeyApp.checkPollTimeout, if_pos quiet]
      rfl
  by_cases late : tm ≥ KeyApp.keyLongPressTime
  · exact longTimeout_refines represents quiet late
  by_cases single : tm ≥ KeyApp.keyClickGap ∧ (app.key.countP fun info => info.cnt ≠ 0) = 1
  · exact clickTimeout_refines represents single.2 late single.1
  · refine ⟨keys, app, ?_, ?_, represents⟩
    · rw [checkPollTimeout, represents.clicks, if_neg quiet, if_neg late]
      by_cases gap : tm ≥ KeyApp.keyClickGap
      · rw [if_pos gap, if_neg fun one => single ⟨gap, one⟩]
        exact Traced.yields_pure
      · rw [if_neg gap]
        exact Traced.yields_pure
    · rw [KeyApp.checkPollTimeout, if_neg quiet, if_neg late, if_neg single]
      rfl

end Timeout

def eventOf (type : Int) (code : Nat) (value : KeyApp.KeyValue) : InputEvent where
  type := type
  code := code
  value := valueOf value

theorem released_value : (eventOf type code value).value = keyRelease ↔ value = .keyRelease := by
  show valueOf value = valueOf .keyRelease ↔ _
  exact valueOf_inj

theorem pressed_value : (eventOf type code value).value = keyPress ↔ value = .keyPress := by
  show valueOf value = valueOf .keyPress ↔ _
  exact valueOf_inj

theorem repeated_value : (eventOf type code value).value = keyRepeat ↔ value = .keyRepeat := by
  show valueOf value = valueOf .keyRepeat ↔ _
  exact valueOf_inj

theorem countLock_refines (represents : Represents keys app) (locked : KeyApp.countLock app value = some after) :
    ∃ now, (countLock keys (eventOf type code value)).Yields Inside now ∧ Represents now after := by
  obtain ⟨key, startTime, pressCnt, keysStatus, lockCnt⟩ := represents
  cases value with
  | keyRelease =>
      obtain ⟨count, small, rfl⟩ := Option.map_eq_some_iff.mp locked
      rw [countLock, if_neg (pressed_value.not.mpr (by decide)), if_pos (released_value.mpr rfl), lockCnt, small]
      exact ⟨_, Traced.yields_bind Traced.yields_lift (Traced.yields_bind debug_yields Traced.yields_pure),
        key, startTime, pressCnt, keysStatus, rfl⟩
  | keyPress =>
      obtain ⟨count, small, rfl⟩ := Option.map_eq_some_iff.mp locked
      rw [countLock, if_pos (pressed_value.mpr rfl), lockCnt, small]
      exact ⟨_, Traced.yields_bind Traced.yields_lift (Traced.yields_bind debug_yields Traced.yields_pure),
        key, startTime, pressCnt, keysStatus, rfl⟩
  | keyRepeat =>
      obtain rfl : app = after := Option.some.inj locked
      rw [countLock, if_neg (pressed_value.not.mpr (by decide)), if_neg (released_value.not.mpr (by decide))]
      exact ⟨keys, Traced.yields_pure, key, startTime, pressCnt, keysStatus, lockCnt⟩

theorem takeKey_refines (represents : Represents keys app) :
    ∃ now, (takeKey keys).Yields Inside (now, (KeyApp.takeKey app).2.1) ∧ Represents now (KeyApp.takeKey app).1 ∧
      (KeyApp.takeKey app).2.1 ≤ maxKeys := by
  have free : keys.key.findIdx (fun info => info.code = 0 ∨ info.status = keyRelease) =
      app.key.findIdx fun info => info.code = 0 ∨ info.status = .keyRelease :=
    represents.findIdx fun _ => decide_eq_decide.mpr (or_congr code_iff released_iff)
  have least : app.key.findIdx (fun info => info.code = 0 ∨ info.status = .keyRelease) ≤ maxKeys := represents.findIdx_le
  rw [takeKey, KeyApp.takeKey, free]
  dsimp only
  split
  · exact ⟨keys, Traced.yields_pure, represents, least⟩
  · rename_i other
    have inside := Nat.lt_of_le_of_ne least other
    exact ⟨_, Traced.yields_bind flush_yields (Traced.yields_bind (assign_yields inside) Traced.yields_pure),
      represents.assigned fun _ _ => rfl, least⟩

theorem findKey_refines (represents : Represents keys app) :
    ∃ now, (findKey keys (eventOf type code value)).Yields Inside (now, (KeyApp.findKey app code).2.1) ∧
      Represents now (KeyApp.findKey app code).1 ∧ (KeyApp.findKey app code).2.1 ≤ maxKeys := by
  have same : keys.key.findIdx (fun info => info.code = (eventOf type code value).code) =
      app.key.findIdx fun info => info.code = code := represents.findIdx fun _ => decide_eq_decide.mpr code_iff
  have least : app.key.findIdx (fun info => info.code = code) ≤ maxKeys := represents.findIdx_le
  rw [findKey, KeyApp.findKey, same]
  split
  · exact takeKey_refines represents
  · exact ⟨keys, Traced.yields_pure, represents, least⟩

/-- A press counts as a click, a release does not. -/
theorem countClick_refines {cnt : Nat} (represents : Represents keys app) (inside : i < maxKeys)
    (change : value ≠ .keyRepeat) (found : app.key[i]? = some slot)
    (counted : KeyApp.countClick slot value = some cnt) :
    ∃ now, (countClick keys i (eventOf type code value)).Yields Inside now ∧
      Represents now { app with key := app.key.modify i fun info => { info with cnt } } := by
  obtain ⟨other, same, looked⟩ := represents.looked inside
  obtain rfl : slot = other := Option.some.inj (found.symm.trans same)
  by_cases released : slot.status = .keyRelease
  · have up : (infoOf slot).status = 0 := released_iff.mpr released
    rw [KeyApp.countClick, if_pos ⟨released, change⟩] at counted
    have more : (infoOf slot).cnt + (if (eventOf type code value).value ≠ 0 then 1 else 0) =
        ((slot.cnt + if value = .keyPress then 1 else 0 : Nat) : Int) := by
      cases value with
      | keyRelease => rfl
      | keyPress => rfl
      | keyRepeat => contradiction
    have clicked : Represents (changed keys i fun info => { info with cnt := cnt })
        { app with key := app.key.modify i fun info => { info with cnt } } := represents.assigned fun _ _ => rfl
    refine ⟨_, Traced.yields_bind looked ?_, clicked⟩
    rw [if_pos up, more, CInt.checked_natCast, counted]
    exact Traced.yields_bind Traced.yields_lift (assign_yields inside)
  · have down : (infoOf slot).status ≠ 0 := released_iff.not.mpr released
    rw [KeyApp.countClick, if_neg fun both => released both.1] at counted
    obtain rfl : slot.cnt = cnt := Option.some.inj counted
    have unchanged : changed keys i id = keys := by
      simp only [changed, List.modify_id]
    have kept : Represents (changed keys i id)
        { app with key := app.key.modify i fun info => { info with cnt := slot.cnt } } := by
      refine represents.assigned fun other here => ?_
      obtain rfl : slot = other := Option.some.inj (found.symm.trans here)
      rfl
    rw [unchanged] at kept
    refine ⟨keys, Traced.yields_bind looked ?_, kept⟩
    rw [if_neg down]
    exact Traced.yields_pure

theorem storeKey_eq_some : KeyApp.storeKey app i code value = some after ↔
    ∃ slot cnt, app.key[i]? = some slot ∧ KeyApp.countClick slot value = some cnt ∧
      { app with key := app.key.modify i fun _ => { code, status := value, cnt } } = after := by
  simp only [KeyApp.storeKey, Option.bind_eq_bind, Option.bind_eq_some_iff, Option.some.injEq, exists_and_left]

/-- The last lines of `check_key_status` where a press or a release comes there. -/
theorem storeKey_refines (represents : Represents keys app) (inside : i < maxKeys) (change : value ≠ .keyRepeat)
    (stored : KeyApp.storeKey app i code value = some after) :
    ∃ now, (countClick keys i (eventOf type code value) >>= fun keys => storeKey keys i (eventOf type code value)).Yields
      Inside now ∧ Represents now after := by
  obtain ⟨slot, cnt, found, click, rfl⟩ := storeKey_eq_some.mp stored
  obtain ⟨counted, yields, middle⟩ := countClick_refines represents inside change found click
  have written : Represents (changed counted i fun info => { info with status := valueOf value, code := code })
      { app with key := (app.key.modify i fun info => { info with cnt }).modify i fun info =>
          { info with status := value, code } } := middle.assigned fun _ _ => rfl
  rw [List.modify_modify_eq] at written
  exact ⟨_, Traced.yields_bind yields (assign_yields inside), written⟩

/-- A repeat is stored without being counted. -/
theorem storeKey_refines_repeat (represents : Represents keys app) (inside : i < maxKeys)
    (stored : KeyApp.storeKey app i code .keyRepeat = some after) :
    ∃ now, (storeKey keys i (eventOf type code .keyRepeat)).Yields Inside now ∧ Represents now after := by
  obtain ⟨slot, cnt, found, click, rfl⟩ := storeKey_eq_some.mp stored
  rw [KeyApp.countClick, if_neg fun both => both.2 rfl] at click
  obtain rfl : slot.cnt = cnt := Option.some.inj click
  have written : Represents (changed keys i fun info => { info with status := valueOf .keyRepeat, code := code })
      { app with key := app.key.modify i fun _ => { code, status := .keyRepeat, cnt := slot.cnt } } := by
    refine represents.assigned fun other here => ?_
    obtain rfl : slot = other := Option.some.inj (found.symm.trans here)
    rfl
  exact ⟨_, assign_yields inside, written⟩

theorem recordKey_stores {middle : Keys} {before : App} {told : List KeyApp.Report} (change : value ≠ .keyRepeat)
    (changed : (changeKey keys i (eventOf type code value) later).Yields Inside (middle, false))
    (represents : Represents middle before) (inside : i < maxKeys)
    (stored : ((KeyApp.storeKey before i code value).map fun app => (app, told)) = some (after, reports)) :
    ∃ now, (recordKey keys i (eventOf type code value) later).Yields Inside now ∧ Represents now after := by
  obtain ⟨written, made, same⟩ := Option.map_eq_some_iff.mp stored
  obtain rfl : written = after := congrArg Prod.fst same
  obtain ⟨now, counted, kept⟩ : ∃ now,
      (countClick middle i (eventOf type code value) >>= fun keys => storeKey keys i (eventOf type code value)).Yields
        Inside now ∧ Represents now written :=
    storeKey_refines represents inside change made
  refine ⟨now, ?_, kept⟩
  rw [recordKey, if_pos (repeated_value.not.mpr change)]
  exact Traced.yields_bind changed counted

theorem not_pressed (some : j ≠ 0) : ¬ (j = 0 ∨ (eventOf type code .keyRelease).value = keyPress) :=
  not_or.mpr ⟨some, pressed_value.not.mpr (by decide)⟩

section Release

variable (represents : Represents keys app) (inside : i < maxKeys)
include represents inside

/-- The combination ends with the release of one of its keys. -/
theorem changeKey_combined (first : app.pressCnt = 0) (several : KeyApp.getKeyPressNum app.key > 1) :
    ∃ middle, (changeKey keys i (eventOf type code .keyRelease) later).Yields Inside (middle, false) ∧
      Represents middle (KeyApp.clearKey
        { app with pressCnt := KeyApp.getKeyPressNum app.key, startTime := later } i) := by
  have count := represents.pressNum
  obtain ⟨key, startTime, pressCnt, keysStatus, lockCnt⟩ := represents
  have branch : keys.pressCnt = 0 ∧ KeyApp.getKeyPressNum app.key > 1 := ⟨by omega, several⟩
  have before : Represents { keys with pressCnt := KeyApp.getKeyPressNum app.key, startTime := later }
      { app with pressCnt := KeyApp.getKeyPressNum app.key, startTime := later } := ⟨key, rfl, rfl, keysStatus, lockCnt⟩
  refine ⟨_, ?_, before.cleared⟩
  rw [changeKey, count]
  dsimp only
  rw [if_neg (not_pressed (by omega)), if_pos branch]
  exact Traced.yields_bind multipleKeyHandler_yields (Traced.yields_bind (assign_yields inside) Traced.yields_pure)

/-- A further key of the combination is released. -/
theorem changeKey_dissolved (again : app.pressCnt ≠ 0) (some : KeyApp.getKeyPressNum app.key ≥ 1) :
    ∃ middle, (changeKey keys i (eventOf type code .keyRelease) later).Yields Inside
        (middle, KeyApp.getKeyPressNum app.key = 1) ∧
      Represents middle (KeyApp.keyReleaseModify
        (KeyApp.clearKey { app with pressCnt := KeyApp.getKeyPressNum app.key - 1 } i)
        (KeyApp.getKeyPressNum app.key)) := by
  have count := represents.pressNum
  obtain ⟨key, startTime, pressCnt, keysStatus, lockCnt⟩ := represents
  have other : ¬ (keys.pressCnt = 0 ∧ KeyApp.getKeyPressNum app.key > 1) := by omega
  have branch : keys.pressCnt ≠ 0 ∧ KeyApp.getKeyPressNum app.key ≥ 1 := ⟨by omega, some⟩
  have before : Represents { keys with pressCnt := (KeyApp.getKeyPressNum app.key : Int) - 1 }
      { app with pressCnt := KeyApp.getKeyPressNum app.key - 1 } :=
    ⟨key, startTime, (Int.ofNat_sub some).symm, keysStatus, lockCnt⟩
  have modified : Represents
      (keyReleaseModify (changed { keys with pressCnt := (KeyApp.getKeyPressNum app.key : Int) - 1 } i fun info =>
        { info with cnt := 0, code := 0 }) (KeyApp.getKeyPressNum app.key))
      (KeyApp.keyReleaseModify (KeyApp.clearKey { app with pressCnt := KeyApp.getKeyPressNum app.key - 1 } i)
        (KeyApp.getKeyPressNum app.key)) := by
    rw [keyReleaseModify, KeyApp.keyReleaseModify]
    split
    · exact before.cleared.initialized
    · exact before.cleared
  refine ⟨_, ?_, modified⟩
  rw [changeKey, count]
  dsimp only
  rw [if_neg (not_pressed (by omega)), if_neg other, if_pos branch]
  exact Traced.yields_bind (assign_yields inside) Traced.yields_pure

/-- A key that was held long is released. -/
theorem changeKey_long (first : app.pressCnt = 0) (single : KeyApp.getKeyPressNum app.key = 1)
    (long : app.keysStatus = .longKeyPress) :
    ∃ middle, (changeKey keys i (eventOf type code .keyRelease) later).Yields Inside (middle, false) ∧
      Represents middle { app with keysStatus := .singelKeyPress } := by
  have count := represents.pressNum
  obtain ⟨slot, -, looked⟩ := represents.looked inside
  obtain ⟨key, startTime, pressCnt, keysStatus, lockCnt⟩ := represents
  have held : keys.keysStatus = longKeyPress := keysStatus.trans (statusOf_long.mpr long)
  refine ⟨{ keys with keysStatus := 0 }, ?_, key, startTime, pressCnt, rfl, lockCnt⟩
  rw [changeKey, count]
  dsimp only
  rw [if_neg (not_pressed (by omega)), if_neg (by omega), if_neg (by omega), if_pos ⟨by omega, single⟩, if_pos held]
  exact Traced.yields_bind looked (Traced.yields_bind debug_yields Traced.yields_pure)

omit inside in
theorem changeKey_kept (first : app.pressCnt = 0) (single : KeyApp.getKeyPressNum app.key = 1)
    (short : app.keysStatus ≠ .longKeyPress) :
    (changeKey keys i (eventOf type code .keyRelease) later).Yields Inside (keys, false) := by
  have count := represents.pressNum
  obtain ⟨key, startTime, pressCnt, keysStatus, lockCnt⟩ := represents
  have held : keys.keysStatus ≠ longKeyPress := fun same => short (statusOf_long.mp (keysStatus.symm.trans same))
  rw [changeKey, count]
  dsimp only
  rw [if_neg (not_pressed (by omega)), if_neg (by omega), if_neg (by omega), if_pos ⟨by omega, single⟩, if_neg held]
  exact Traced.yields_pure

theorem releaseKey_refines (released : KeyApp.releaseKey app i code later = some (after, reports)) :
    ∃ now, (recordKey keys i (eventOf type code .keyRelease) later).Yields Inside now ∧ Represents now after := by
  have count := represents.pressNum
  have change : KeyApp.KeyValue.keyRelease ≠ .keyRepeat := by decide
  rw [KeyApp.releaseKey] at released
  dsimp only at released
  by_cases quiet : KeyApp.getKeyPressNum app.key = 0
  · rw [if_pos quiet] at released
    obtain ⟨key, startTime, pressCnt, keysStatus, lockCnt⟩ := represents
    have started : Represents { keys with startTime := later } { app with startTime := later } :=
      ⟨key, rfl, pressCnt, keysStatus, lockCnt⟩
    refine recordKey_stores change ?_ started inside released
    rw [changeKey, count, if_pos (.inl quiet)]
    exact Traced.yields_pure
  rw [if_neg quiet] at released
  by_cases combined : app.pressCnt = 0 ∧ KeyApp.getKeyPressNum app.key > 1
  · rw [if_pos combined] at released
    obtain ⟨middle, changed, cleared⟩ := changeKey_combined represents inside combined.1 combined.2
    exact recordKey_stores change changed cleared inside released
  rw [if_neg combined] at released
  by_cases dissolved : app.pressCnt ≠ 0 ∧ KeyApp.getKeyPressNum app.key ≥ 1
  · rw [if_pos dissolved] at released
    obtain ⟨middle, changed, modified⟩ : ∃ middle, (changeKey keys i (eventOf type code .keyRelease) later).Yields Inside
        (middle, KeyApp.getKeyPressNum app.key = 1) ∧ _ := changeKey_dissolved represents inside dissolved.1 dissolved.2
    by_cases last : KeyApp.getKeyPressNum app.key = 1
    · rw [decide_eq_true last] at changed
      rw [if_pos last] at released
      obtain rfl : _ = after := congrArg Prod.fst (Option.some.inj released)
      refine ⟨middle, ?_, modified⟩
      rw [recordKey, if_pos (repeated_value.not.mpr change)]
      exact Traced.yields_bind changed Traced.yields_pure
    · rw [decide_eq_false last] at changed
      rw [if_neg last] at released
      exact recordKey_stores change changed modified inside released
  rw [if_neg dissolved, if_pos (by omega)] at released
  by_cases long : app.keysStatus = .longKeyPress
  · rw [if_pos long] at released
    obtain ⟨middle, changed, ended⟩ := changeKey_long represents inside (by omega) (by omega) long
    exact recordKey_stores change changed ended inside released
  · rw [if_neg long] at released
    exact recordKey_stores change (changeKey_kept represents (by omega) (by omega) long) represents inside released

end Release

theorem recordKey_refines (represents : Represents keys app) (inside : i < maxKeys)
    (recorded : KeyApp.recordKey app i code value later = some (after, reports)) :
    ∃ now, (recordKey keys i (eventOf type code value) later).Yields Inside now ∧ Represents now after := by
  cases value with
  | keyRelease => exact releaseKey_refines represents inside recorded
  | keyPress =>
      obtain ⟨key, startTime, pressCnt, keysStatus, lockCnt⟩ := represents
      have started : Represents { keys with startTime := later } { app with startTime := later } :=
        ⟨key, rfl, pressCnt, keysStatus, lockCnt⟩
      refine recordKey_stores (by decide) ?_ started inside recorded
      rw [changeKey, if_pos (.inr (pressed_value.mpr rfl))]
      exact Traced.yields_pure
  | keyRepeat =>
      obtain ⟨stored, made, same⟩ := Option.map_eq_some_iff.mp recorded
      obtain rfl : stored = after := congrArg Prod.fst same
      rw [recordKey, if_neg (not_not.mpr (repeated_value.mpr rfl))]
      exact storeKey_refines_repeat represents inside made

theorem checkKeyStatus_refines (represents : Represents keys app)
    (checked : KeyApp.checkKeyStatus app code value later = some (after, reports)) :
    ∃ now, (checkKeyStatus keys (eventOf type code value) later).Yields Inside now ∧ Represents now after := by
  have repeated : (keys.key.any fun info =>
      info.code = (eventOf type code value).code ∧ info.status = (eventOf type code value).value) =
        app.key.any fun info => info.code = code ∧ info.status = value :=
    represents.any fun _ => decide_eq_decide.mpr (and_congr code_iff valueOf_inj)
  have others : (keys.key.countP fun info => info.code ≠ (eventOf type code value).code) =
      app.key.countP fun info => info.code ≠ code := represents.countP fun _ => decide_eq_decide.mpr (not_congr code_iff)
  rw [KeyApp.checkKeyStatus] at checked
  rw [checkKeyStatus, repeated, others]
  by_cases again : (app.key.any fun info => info.code = code ∧ info.status = value) = true
  · rw [if_pos again] at checked ⊢
    obtain rfl : app = after := congrArg Prod.fst (Option.some.inj checked)
    exact ⟨keys, Traced.yields_bind debug_yields Traced.yields_pure, represents⟩
  rw [if_neg again] at checked ⊢
  simp only [released_value]
  by_cases unknown : app.key.countP (fun info => info.code ≠ code) = maxKeys ∧ value = .keyRelease
  · rw [if_pos unknown] at checked ⊢
    obtain rfl : app = after := congrArg Prod.fst (Option.some.inj checked)
    exact ⟨keys, Traced.yields_bind debug_yields Traced.yields_pure, represents⟩
  · rw [if_neg unknown] at checked ⊢
    obtain ⟨counted, lock, placed⟩ := Option.bind_eq_some_iff.mp checked
    obtain ⟨locked, locks, representsLocked⟩ : ∃ now, (countLock keys (eventOf type code value)).Yields Inside now ∧
        Represents now counted := countLock_refines represents lock
    obtain ⟨taken, find, representsTaken, least⟩ : ∃ now, (findKey locked (eventOf type code value)).Yields Inside
        (now, (KeyApp.findKey counted code).2.1) ∧ _ := findKey_refines representsLocked
    rw [KeyApp.placeKey] at placed
    generalize KeyApp.findKey counted code = result at find representsTaken least placed
    obtain ⟨found, i, flushed⟩ := result
    dsimp only at find representsTaken least placed
    by_cases full : i = maxKeys
    · rw [if_pos full] at placed
      obtain rfl : found = after := congrArg Prod.fst (Option.some.inj placed)
      refine ⟨taken, Traced.yields_bind locks (Traced.yields_bind find ?_), representsTaken⟩
      rw [if_pos full]
      exact Traced.yields_bind debug_yields Traced.yields_pure
    · rw [if_neg full] at placed
      obtain ⟨⟨made, told⟩, recorded, same⟩ := Option.map_eq_some_iff.mp placed
      obtain rfl : made = after := congrArg Prod.fst same
      obtain ⟨now, yields, kept⟩ : ∃ now, (recordKey taken i (eventOf type code value) later).Yields Inside now ∧ _ :=
        recordKey_refines representsTaken (Nat.lt_of_le_of_ne least full) recorded
      refine ⟨now, Traced.yields_bind locks (Traced.yields_bind find ?_), kept⟩
      rw [if_neg full]
      exact yields

def inputOf (type : Int) : KeyApp.Event → Input
  | .timeout now => .timeout now
  | .key code value later => .key (eventOf type code value) later

/-- What the tracker does with an event the table does too. -/
theorem inputKeysAnalyse_refines {event : KeyApp.Event} (represents : Represents keys app)
    (tracked : trackerStep app event = some after) :
    ∃ now, (inputKeysAnalyse keys (inputOf type event)).Yields Inside now ∧ Represents now after := by
  cases event with
  | timeout time =>
      obtain ⟨now, other, yields, same, kept⟩ := checkPollTimeout_refines represents (time - app.startTime)
      rw [← represents.startTime] at yields
      obtain rfl : other = after := Option.some.inj (same.symm.trans tracked)
      exact ⟨now, yields, kept⟩
  | key code value later =>
      obtain ⟨⟨made, reports⟩, checked, rfl⟩ := Option.map_eq_some_iff.mp tracked
      exact checkKeyStatus_refines represents checked

theorem analyseAll_refines {final : App} (represents : Represents keys app) (events : List KeyApp.Event)
    (tracked : Run.run trackerStep app events = some final) :
    ∃ now, (analyseAll keys (events.map (inputOf type))).Yields Inside now ∧ Represents now final := by
  induction events generalizing keys app with
  | nil =>
      cases tracked
      exact ⟨keys, Traced.yields_pure, represents⟩
  | cons event events ih =>
      obtain ⟨after, stepped, others⟩ := Run.run_cons_eq_some.mp tracked
      obtain ⟨middle, yields, kept⟩ : ∃ now, (inputKeysAnalyse keys (inputOf type event)).Yields Inside now ∧ _ :=
        inputKeysAnalyse_refines represents stepped
      obtain ⟨now, later, last⟩ := ih kept others
      exact ⟨now, Traced.yields_bind yields later, last⟩

/-- The table when the program starts. -/
def started : Keys where
  key := .replicate maxKeys noKey
  startTime := 0
  pressCnt := 0
  keysStatus := 0
  lockCnt := 0
  size := List.length_replicate

theorem started_represents : Represents started KeyApp.started.app := ⟨rfl, rfl, rfl, rfl, rfl⟩

/-- From the start on the table holds what the tracker holds, and every lookup is inside. -/
theorem started_refines (events : List KeyApp.Event) (few : events.length < 2 ^ 31) :
    ∃ now final, (analyseAll started (events.map (inputOf type))).Yields Inside now ∧
      Run.run trackerStep KeyApp.started.app events = some final ∧ Represents now final := by
  obtain ⟨final, tracked⟩ : ∃ final, Run.run trackerStep KeyApp.started.app events = some final :=
    KeyApp.counted_started.run (by omega) (by omega)
  obtain ⟨now, yields, kept⟩ := analyseAll_refines started_represents events tracked
  exact ⟨now, final, yields, tracked, kept⟩

/-- A key that is held while another one is pressed twice. -/
theorem started_refines_two : ∃ now final,
    (analyseAll started ([KeyApp.Event.key 30 .keyPress 0, .key 31 .keyPress 5, .key 31 .keyRelease 9,
      .timeout 400, .key 31 .keyPress 500, .key 30 .keyRepeat 900].map (inputOf 1))).Yields Inside now ∧
    Run.run trackerStep KeyApp.started.app [.key 30 .keyPress 0, .key 31 .keyPress 5, .key 31 .keyRelease 9,
      .timeout 400, .key 31 .keyPress 500, .key 30 .keyRepeat 900] = some final ∧ Represents now final :=
  started_refines _ (by decide)

end Dwadelib.KeyTable
