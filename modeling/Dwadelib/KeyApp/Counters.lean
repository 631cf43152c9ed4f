import Dwadelib.KeyApp.Tracking

namespace Dwadelib.KeyApp

/-! # Counters of the tracker

An event moves the counter of the wake locks by one at most, and adds one click at most. So no counter
leaves the range of `int` in a run of fewer than 2 ^ 31 events of any kind.
-/

variable {app : App} {value : KeyValue} {i j code : Nat} {later : Int} {event : Event} {events : List Event}

/-- How far the counters can be from 0. -/
structure Counted (locks clicks : Nat) (app : App) : Prop where
  size : app.key.length = maxKeys
  lower : -(locks : Int) ≤ app.lockCnt
  upper : app.lockCnt ≤ locks
  clicks : ∀ info ∈ app.key, info.cnt ≤ clicks

/-- What the tracker does with an event, without its reports. -/
def trackerStep (app : App) (event : Event) : Option App := (inputKeysAnalyse app event).map Prod.fst

theorem countClick_exists {info : KeyInfo} {clicks : Nat} (few : info.cnt ≤ clicks) (room : clicks + 1 < 2 ^ 31) :
    ∃ cnt, countClick info value = some cnt ∧ cnt ≤ clicks + 1 := by
  have more : info.cnt + (if value = .keyPress then 1 else 0) ≤ clicks + 1 := by split <;> omega
  rw [countClick]
  split
  · exact ⟨_, if_pos (Nat.lt_of_le_of_lt more room), more⟩
  · exact ⟨_, rfl, Nat.le_succ_of_le few⟩

section Counted

variable {locks moreLocks clicks more : Nat} (counted : Counted locks clicks app)
include counted

theorem Counted.modify {change : KeyInfo → KeyInfo} (wider : clicks ≤ more)
    (small : ∀ info, info.cnt ≤ clicks → (change info).cnt ≤ more) :
    Counted locks more { app with key := app.key.modify i change } := by
  refine ⟨(List.length_modify _ _ _).trans counted.size, counted.lower, counted.upper, fun info member => ?_⟩
  obtain ⟨place, found⟩ := List.mem_iff_getElem?.mp member
  rw [List.getElem?_modify] at found
  obtain ⟨before, there, rfl⟩ := Option.map_eq_some_iff.mp found
  have few := counted.clicks before (List.mem_of_getElem? there)
  split
  · exact small before few
  · exact Nat.le_trans few wider

theorem Counted.mono (widerLocks : locks ≤ moreLocks) (wider : clicks ≤ more) : Counted moreLocks more app := by
  obtain ⟨size, lower, upper, few⟩ := counted
  exact ⟨size, by omega, by omega, fun info member => Nat.le_trans (few info member) wider⟩

theorem Counted.storeKey (inside : i < maxKeys) (room : clicks + 1 < 2 ^ 31) :
    ∃ after, KeyApp.storeKey app i code value = some after ∧ Counted locks (clicks + 1) after := by
  rw [← counted.size] at inside
  obtain ⟨cnt, click, few⟩ : ∃ cnt, countClick app.key[i] value = some cnt ∧ cnt ≤ clicks + 1 :=
    countClick_exists (counted.clicks app.key[i] (List.getElem_mem inside)) room
  simp only [KeyApp.storeKey, List.getElem?_eq_getElem inside, Option.bind_eq_bind, Option.bind_some, click]
  exact ⟨_, rfl, counted.modify (Nat.le_succ _) fun _ _ => few⟩

theorem Counted.stored (inside : i < maxKeys) (room : clicks + 1 < 2 ^ 31) (told : List Report) :
    ∃ after reports, ((KeyApp.storeKey app i code value).map fun app => (app, told)) = some (after, reports) ∧
      Counted locks (clicks + 1) after := by
  obtain ⟨after, stored, few⟩ : ∃ after, KeyApp.storeKey app i code value = some after ∧ _ :=
    counted.storeKey inside room
  exact ⟨after, told, by rw [stored]; rfl, few⟩

theorem Counted.clearKey : Counted locks clicks (KeyApp.clearKey app i) :=
  counted.modify (Nat.le_refl _) fun _ _ => Nat.zero_le _

theorem Counted.keyReleaseModify : Counted locks clicks (KeyApp.keyReleaseModify app j) := by
  rw [KeyApp.keyReleaseModify]
  split
  · refine ⟨List.length_replicate, counted.lower, counted.upper, fun info member => ?_⟩
    rw [List.eq_of_mem_replicate member]
    exact Nat.zero_le _
  · exact counted

theorem Counted.releaseKey (inside : i < maxKeys) (room : clicks + 1 < 2 ^ 31) :
    ∃ after reports, KeyApp.releaseKey app i code later = some (after, reports) ∧
      Counted locks (clicks + 1) after := by
  obtain ⟨size, lower, upper, few⟩ := id counted
  have combined : Counted locks clicks { app with pressCnt := KeyApp.getKeyPressNum app.key, startTime := later } :=
    ⟨size, lower, upper, few⟩
  have dissolved : Counted locks clicks { app with pressCnt := KeyApp.getKeyPressNum app.key - 1 } :=
    ⟨size, lower, upper, few⟩
  have restarted : Counted locks clicks { app with startTime := later } := ⟨size, lower, upper, few⟩
  have ended : Counted locks clicks { app with keysStatus := .singelKeyPress } := ⟨size, lower, upper, few⟩
  rw [KeyApp.releaseKey]
  dsimp only
  split
  · exact restarted.stored inside room _
  split
  · exact combined.clearKey.stored inside room _
  split
  · split
    · exact ⟨_, _, rfl, dissolved.clearKey.keyReleaseModify.mono (Nat.le_refl _) (Nat.le_succ _)⟩
    · exact dissolved.clearKey.keyReleaseModify.stored inside room _
  split
  · split
    · exact ended.stored inside room _
    · exact counted.stored inside room _
  · exact counted.stored inside room _

theorem Counted.recordKey (inside : i < maxKeys) (room : clicks + 1 < 2 ^ 31) :
    ∃ after reports, KeyApp.recordKey app i code value later = some (after, reports) ∧
      Counted locks (clicks + 1) after := by
  obtain ⟨size, lower, upper, few⟩ := id counted
  have restarted : Counted locks clicks { app with startTime := later } := ⟨size, lower, upper, few⟩
  cases value with
  | keyRelease => exact counted.releaseKey inside room
  | keyPress => exact restarted.stored inside room _
  | keyRepeat => exact counted.stored inside room _

theorem Counted.countLock (room : locks + 1 < 2 ^ 31) :
    ∃ after, KeyApp.countLock app value = some after ∧ Counted (locks + 1) clicks after := by
  obtain ⟨size, lower, upper, few⟩ := id counted
  cases value with
  | keyRelease =>
      rw [KeyApp.countLock, CInt.checked_eq (by omega) (by omega)]
      exact ⟨_, rfl, size, show _ ≤ app.lockCnt - 1 by omega, show app.lockCnt - 1 ≤ _ by omega, few⟩
  | keyPress =>
      rw [KeyApp.countLock, CInt.checked_eq (by omega) (by omega)]
      exact ⟨_, rfl, size, show _ ≤ app.lockCnt + 1 by omega, show app.lockCnt + 1 ≤ _ by omega, few⟩
  | keyRepeat => exact ⟨app, rfl, counted.mono (Nat.le_succ _) (Nat.le_refl _)⟩

theorem Counted.takeKey : Counted locks clicks (KeyApp.takeKey app).1 ∧ (KeyApp.takeKey app).2.1 ≤ maxKeys := by
  have least : app.key.findIdx (fun info => info.code = 0 ∨ info.status = .keyRelease) ≤ maxKeys := by
    rw [← counted.size]
    exact List.findIdx_le_length
  rw [KeyApp.takeKey]
  dsimp only
  split
  · exact ⟨counted, least⟩
  · exact ⟨counted.modify (Nat.le_refl _) fun _ _ => Nat.zero_le _, least⟩

theorem Counted.findKey : Counted locks clicks (KeyApp.findKey app code).1 ∧ (KeyApp.findKey app code).2.1 ≤ maxKeys := by
  have least : app.key.findIdx (fun info => info.code = code) ≤ maxKeys := by
    rw [← counted.size]
    exact List.findIdx_le_length
  rw [KeyApp.findKey]
  split
  · exact counted.takeKey
  · exact ⟨counted, least⟩

theorem Counted.placeKey (room : clicks + 1 < 2 ^ 31) :
    ∃ after reports, KeyApp.placeKey app code value later = some (after, reports) ∧
      Counted locks (clicks + 1) after := by
  obtain ⟨found, least⟩ : Counted locks clicks (KeyApp.findKey app code).1 ∧ _ := counted.findKey
  rw [KeyApp.placeKey]
  generalize KeyApp.findKey app code = result at found least ⊢
  obtain ⟨next, place, told⟩ := result
  dsimp only at found least ⊢
  split
  · exact ⟨_, _, rfl, found.mono (Nat.le_refl _) (Nat.le_succ _)⟩
  · rename_i taken
    obtain ⟨after, reports, recorded, few⟩ : ∃ after reports,
        KeyApp.recordKey next place code value later = some (after, reports) ∧ _ :=
      found.recordKey (Nat.lt_of_le_of_ne least taken) room
    exact ⟨after, _, by rw [recorded]; rfl, few⟩

theorem Counted.checkKeyStatus (roomLocks : locks + 1 < 2 ^ 31) (room : clicks + 1 < 2 ^ 31) :
    ∃ after reports, KeyApp.checkKeyStatus app code value later = some (after, reports) ∧
      Counted (locks + 1) (clicks + 1) after := by
  have unchanged : Counted (locks + 1) (clicks + 1) app := counted.mono (Nat.le_succ _) (Nat.le_succ _)
  rw [KeyApp.checkKeyStatus]
  split
  · exact ⟨app, _, rfl, unchanged⟩
  split
  · exact ⟨app, _, rfl, unchanged⟩
  · obtain ⟨locked, lock, few⟩ : ∃ after, KeyApp.countLock app value = some after ∧ _ := counted.countLock roomLocks
    rw [lock, Option.bind_some]
    exact few.placeKey room

theorem Counted.checkPollTimeout {now : Int} :
    ∃ after reports, inputKeysAnalyse app (.timeout now) = some (after, reports) ∧ Counted locks clicks after := by
  obtain ⟨next, reports, returned, change⟩ : ∃ next reports,
      inputKeysAnalyse app (.timeout now) = some (next, reports) ∧ Change app (.timeout now) next reports :=
    change_of_timeout
  refine ⟨next, reports, returned, ?_⟩
  obtain ⟨size, lower, upper, few⟩ := id counted
  cases change with
  | waited early => exact counted
  | @clicked now before slot rest early table only up =>
      have cleared : Counted locks clicks { app with key := app.key.modify before.length fun info =>
          { info with cnt := 0, code := 0 } } := counted.modify (Nat.le_refl _) fun _ _ => Nat.zero_le _
      rw [table, Cells.modify_middle] at cleared
      exact cleared
  | longPressed late clicks =>
      refine ⟨(List.length_map _).trans size, lower, upper, fun info member => ?_⟩
      obtain ⟨before, -, rfl⟩ := List.mem_map.mp member
      exact Nat.zero_le _

theorem Counted.trackerStep (roomLocks : locks + 1 < 2 ^ 31) (room : clicks + 1 < 2 ^ 31) :
    ∃ after, KeyApp.trackerStep app event = some after ∧ Counted (locks + 1) (clicks + 1) after := by
  rw [KeyApp.trackerStep]
  cases event with
  | timeout now =>
      obtain ⟨after, reports, returned, few⟩ : ∃ after reports,
          inputKeysAnalyse app (.timeout now) = some (after, reports) ∧ _ := counted.checkPollTimeout
      exact ⟨after, by rw [returned]; rfl, few.mono (Nat.le_succ _) (Nat.le_succ _)⟩
  | key code value later =>
      obtain ⟨after, reports, returned, few⟩ : ∃ after reports,
          KeyApp.checkKeyStatus app code value later = some (after, reports) ∧ _ :=
        counted.checkKeyStatus roomLocks room
      exact ⟨after, by rw [inputKeysAnalyse, returned]; rfl, few⟩

/-- All events of a run, as long as there are not more of them than `int` can count. -/
theorem Counted.run (roomLocks : locks + events.length < 2 ^ 31) (room : clicks + events.length < 2 ^ 31) :
    ∃ final, Run.run KeyApp.trackerStep app events = some final := by
  induction events generalizing app locks clicks with
  | nil => exact ⟨app, rfl⟩
  | cons event events ih =>
      rw [List.length_cons] at roomLocks room
      obtain ⟨after, stepped, few⟩ : ∃ after, KeyApp.trackerStep app event = some after ∧ _ :=
        counted.trackerStep (by omega) (by omega)
      obtain ⟨final, reached⟩ := ih few (by omega) (by omega)
      exact ⟨final, Run.run_cons_eq_some.mpr ⟨after, stepped, reached⟩⟩

end Counted

theorem counted_started : Counted 0 0 started.app :=
  ⟨rfl, Int.le_refl _, Int.le_refl _, fun info member => by rw [List.eq_of_mem_replicate member]; exact Nat.le_refl _⟩

end Dwadelib.KeyApp
