import Dwadelib.KeyTable

namespace Dwadelib.KeyTable

open KeyApp (maxKeys keyClickGap keyLongPressTime)

/-! # Lookups stay in the tables

The keys that a handler is told of are counted by one test, and `get_key_info` finds them by another one. It
finds as many as there are keys with clicks, and misses with an index behind the table.
-/

variable {keys : Keys} {key keyInfo : List KeyInfo} {ev : InputEvent} {index i j cnt left : Nat}

/-- A lookup inside of its table. -/
def Inside : Act → Prop
  | .key index => 0 ≤ index ∧ index < maxKeys
  | .keyInfo index => 0 ≤ index ∧ index < maxKeys
  | .singleStr index => 0 ≤ index ∧ index < 3
  | .multipleStr index => 0 ≤ index ∧ index < 3
  | .debug _ => True

/-- The slots with clicks. -/
def clicked (keys : Keys) : Nat := keys.key.countP fun info => info.cnt ≠ 0

/-- Those of them whose key is down. -/
def held (keys : Keys) : Nat := keys.key.countP fun info => info.cnt ≠ 0 ∧ info.status ≠ 0

theorem clicked_le : clicked keys ≤ maxKeys := by
  rw [← keys.size]
  exact List.countP_le_length

theorem held_le_clicked : held keys ≤ clicked keys := by
  refine List.countP_mono_left fun info _ both => ?_
  rw [decide_eq_true_iff] at both ⊢
  exact both.1

theorem getKeyInfoFrom_lt (some : index < cnt + key.countP fun info => info.cnt ≠ 0) (reached : cnt ≤ index) :
    getKeyInfoFrom key index cnt < key.length := by
  induction key generalizing cnt with
  | nil =>
      rw [List.countP_nil] at some
      omega
  | cons info rest ih =>
      rw [List.length_cons]
      by_cases click : info.cnt ≠ 0
      · have more : (info :: rest).countP (fun info => info.cnt ≠ 0) = rest.countP (fun info => info.cnt ≠ 0) + 1 :=
          List.countP_cons_of_pos (decide_eq_true_iff.mpr click)
        rw [more] at some
        rw [getKeyInfoFrom, if_pos click]
        by_cases here : index = cnt
        · rw [if_pos here]
          exact Nat.succ_pos _
        · rw [if_neg here]
          exact Nat.succ_lt_succ (ih (by omega) (by omega))
      · have same : (info :: rest).countP (fun info => info.cnt ≠ 0) = rest.countP (fun info => info.cnt ≠ 0) :=
          List.countP_cons_of_neg (fun holds => click (decide_eq_true_iff.mp holds))
        rw [same] at some
        rw [getKeyInfoFrom, if_neg click]
        exact Nat.succ_lt_succ (ih some reached)

/-- There is a slot for each index below the number of slots with clicks. -/
theorem getKeyInfo_lt (some : index < clicked keys) : getKeyInfo keys index < maxKeys := by
  rw [← keys.size]
  refine getKeyInfoFrom_lt ?_ (Nat.zero_le index)
  rw [Nat.zero_add]
  exact some

theorem debug_yields {text : String} : (debug text).Yields Inside () := Traced.yields_note trivial

theorem inside_natCast {bound : Nat} (inside : index < bound) : 0 ≤ (index : Int) ∧ (index : Int) < bound :=
  ⟨Int.natCast_nonneg index, Int.ofNat_lt.mpr inside⟩

theorem look_yields (inside : index < maxKeys) :
    ∃ info, keys.key[index]? = some info ∧ (look keys index).Yields Inside info := by
  have room : index < keys.key.length := by
    rw [keys.size]
    exact inside
  exact ⟨keys.key[index], List.getElem?_eq_getElem room, Traced.yields_read room (inside_natCast inside)⟩

theorem assign_yields {change : KeyInfo → KeyInfo} (inside : index < maxKeys) :
    (assign keys index change).Yields Inside (changed keys index change) :=
  ⟨if_pos inside, Traced.notes_single rfl (inside_natCast inside)⟩

theorem singleKeyHandle_yields {code isPress cnt : Int} : (singleKeyHandle code isPress cnt).Yields Inside () := by
  by_cases named : cnt ≤ 3 ∧ cnt > 0
  · obtain ⟨index, same⟩ : ∃ index : Nat, cnt - 1 = index := ⟨(cnt - 1).toNat, by omega⟩
    have inside : index < 3 := by omega
    rw [singleKeyHandle, if_pos named, same]
    exact Traced.yields_bind (Traced.yields_read inside (inside_natCast inside)) debug_yields
  · rw [singleKeyHandle, if_neg named]
    exact Traced.yields_pure

theorem printKey_yields : (printKey keys cnt).Yields Inside () := by
  rw [printKey]
  split
  · rename_i inside
    obtain ⟨info, -, looked⟩ := look_yields inside
    exact Traced.yields_bind looked debug_yields
  · exact Traced.yields_pure

theorem printKeys_yields : (printKeys keys cnt).Yields Inside () := by
  induction cnt with
  | zero => exact Traced.yields_pure
  | succ cnt ih => exact Traced.yields_bind printKey_yields ih

theorem multipleKeyHandler_yields : (multipleKeyHandler keys cnt).Yields Inside () := by
  by_cases named : cnt ≤ 4 ∧ cnt > 1
  · obtain ⟨index, same⟩ : ∃ index : Nat, (cnt : Int) - 2 = index := ⟨cnt - 2, by omega⟩
    have inside : index < 3 := by omega
    rw [multipleKeyHandler, if_pos named, same]
    exact Traced.yields_bind (Traced.yields_read inside (inside_natCast inside))
      (Traced.yields_bind debug_yields (Traced.yields_bind printKeys_yields debug_yields))
  · rw [multipleKeyHandler, if_neg named]
    exact Traced.yields_pure

/-- As many keys as are counted are found, and there is room for them. -/
theorem gather_yields (few : i + left ≤ clicked keys) (size : keyInfo.length = maxKeys) :
    ∃ gathered, (gather keys i left keyInfo).Yields Inside gathered ∧ gathered.length = maxKeys := by
  induction left generalizing i keyInfo with
  | zero => exact ⟨keyInfo, Traced.yields_pure, size⟩
  | succ left ih =>
      have some : i < clicked keys := by omega
      have place : i < maxKeys := Nat.lt_of_lt_of_le some clicked_le
      have room : i < keyInfo.length := by
        rw [size]
        exact place
      obtain ⟨info, -, looked⟩ := look_yields (getKeyInfo_lt some)
      have written : (Traced.write .keyInfo keyInfo i info).Yields Inside (keyInfo.set i info) :=
        Traced.yields_write room (inside_natCast place)
      obtain ⟨gathered, rest, length⟩ := ih (show i + 1 + left ≤ clicked keys by omega)
        (show (keyInfo.set i info).length = maxKeys by rw [List.length_set, size])
      exact ⟨gathered, Traced.yields_bind looked (Traced.yields_bind written rest), length⟩

section Gathered

variable {isPress : Int} (size : keyInfo.length = maxKeys)
include size

theorem keyInfo_yields (inside : index < maxKeys) : ∃ info, (Traced.read .keyInfo keyInfo index).Yields Inside info := by
  have room : index < keyInfo.length := by
    rw [size]
    exact inside
  exact ⟨keyInfo[index], Traced.yields_read room (inside_natCast inside)⟩

theorem printCodes_yields (few : i + left ≤ maxKeys) : (printCodes keyInfo i left).Yields Inside () := by
  induction left generalizing i with
  | zero => exact Traced.yields_pure
  | succ left ih =>
      obtain ⟨info, looked⟩ := keyInfo_yields size (show i < maxKeys by omega)
      exact Traced.yields_bind looked (Traced.yields_bind debug_yields (ih (by omega)))

theorem printLongKey_yields (few : cnt ≤ maxKeys) : (printLongKey keyInfo isPress cnt).Yields Inside () :=
  Traced.yields_bind debug_yields (Traced.yields_bind (printCodes_yields size (by omega)) debug_yields)

theorem tellLongKey_yields (few : cnt ≤ maxKeys) : (tellLongKey keyInfo isPress cnt).Yields Inside () := by
  rw [tellLongKey]
  split
  · obtain ⟨info, looked⟩ := keyInfo_yields size (show 0 < maxKeys by decide)
    refine Traced.yields_bind looked ?_
    split
    · exact singleKeyHandle_yields
    · exact printLongKey_yields size few
  · split
    · exact debug_yields
    · exact printLongKey_yields size few

end Gathered

theorem longKeyHandle_yields {isPress : Int} (few : cnt ≤ clicked keys) :
    (longKeyHandle keys isPress cnt).Yields Inside { keys with keysStatus := longKeyPress } := by
  have room : (List.replicate maxKeys noKey).length = maxKeys := List.length_replicate
  obtain ⟨gathered, all, size⟩ := gather_yields (show 0 + cnt ≤ clicked keys by omega) room
  exact Traced.yields_bind all
    (Traced.yields_bind (tellLongKey_yields size (Nat.le_trans few clicked_le)) Traced.yields_pure)

theorem checkPollTimeout_yields (keys : Keys) (tm : Int) : ∃ after, (checkPollTimeout keys tm).Yields Inside after := by
  rw [checkPollTimeout]
  split
  · exact ⟨_, Traced.yields_pure⟩
  split
  · exact ⟨_, Traced.yields_bind (longKeyHandle_yields held_le_clicked) Traced.yields_pure⟩
  split
  · split
    · dsimp only
      split
      · exact ⟨_, Traced.yields_pure⟩
      · rename_i found
        have inside : getKeyInfo keys 0 < maxKeys := Nat.lt_of_not_le found
        obtain ⟨info, -, looked⟩ := look_yields inside
        by_cases released : info.status = keyRelease
        · refine ⟨changed keys (getKeyInfo keys 0) fun info => { info with cnt := 0, code := 0 },
            Traced.yields_bind looked ?_⟩
          rw [if_pos released]
          exact Traced.yields_bind singleKeyHandle_yields (assign_yields inside)
        · refine ⟨keys, Traced.yields_bind looked ?_⟩
          rw [if_neg released]
          exact Traced.yields_pure
    · exact ⟨_, Traced.yields_pure⟩
  · exact ⟨_, Traced.yields_pure⟩

theorem countLock_inside : (countLock keys ev).Notes Inside := by
  have counted {lockCnt : Option Int} {text : Int → String} {after : Int → Keys} :
      (do let lockCnt ← Traced.lift (.ofOption lockCnt)
          debug (text lockCnt)
          return after lockCnt : Traced Act Keys).Notes Inside :=
    Traced.notes_bind Traced.notes_lift fun _ _ => Traced.notes_bind debug_yields.notes fun _ _ => Traced.notes_pure
  rw [countLock]
  split
  · exact counted
  split
  · exact counted
  · exact Traced.notes_pure

theorem flush_yields : (flush keys).Yields Inside () := by
  rw [flush]
  split
  · dsimp only
    split
    · rename_i inside
      obtain ⟨info, -, looked⟩ := look_yields inside
      exact Traced.yields_bind looked singleKeyHandle_yields
    · exact Traced.yields_pure
  · exact Traced.yields_pure

theorem takeKey_yields : ∃ found, (takeKey keys).Yields Inside found ∧ found.2 ≤ maxKeys := by
  have least : keys.key.findIdx (fun info => info.code = 0 ∨ info.status = keyRelease) ≤ maxKeys := by
    rw [← keys.size]
    exact List.findIdx_le_length
  rw [takeKey]
  split
  · exact ⟨_, Traced.yields_pure, least⟩
  · rename_i other
    have inside := Nat.lt_of_le_of_ne least other
    exact ⟨_, Traced.yields_bind flush_yields (Traced.yields_bind (assign_yields inside) Traced.yields_pure), least⟩

theorem findKey_yields : ∃ found, (findKey keys ev).Yields Inside found ∧ found.2 ≤ maxKeys := by
  have least : keys.key.findIdx (fun info => info.code = ev.code) ≤ maxKeys := by
    rw [← keys.size]
    exact List.findIdx_le_length
  rw [findKey]
  split
  · exact takeKey_yields
  · exact ⟨_, Traced.yields_pure, least⟩

theorem countClick_inside (inside : i < maxKeys) : (countClick keys i ev).Notes Inside := by
  obtain ⟨info, -, looked⟩ := look_yields inside
  refine Traced.notes_bind looked.notes fun info _ => ?_
  split
  · exact Traced.notes_bind Traced.notes_lift fun _ _ => (assign_yields inside).notes
  · exact Traced.notes_pure

theorem changeKey_yields {later : Int} (inside : i < maxKeys) :
    ∃ changed, (changeKey keys i ev later).Yields Inside changed := by
  rw [changeKey]
  split
  · exact ⟨_, Traced.yields_pure⟩
  split
  · exact ⟨_, Traced.yields_bind multipleKeyHandler_yields (Traced.yields_bind (assign_yields inside) Traced.yields_pure)⟩
  split
  · exact ⟨_, Traced.yields_bind (assign_yields inside) Traced.yields_pure⟩
  split
  · split
    · obtain ⟨info, -, looked⟩ := look_yields inside
      exact ⟨_, Traced.yields_bind looked (Traced.yields_bind debug_yields Traced.yields_pure)⟩
    · exact ⟨_, Traced.yields_pure⟩
  · exact ⟨_, Traced.yields_pure⟩

theorem recordKey_inside {later : Int} (inside : i < maxKeys) : (recordKey keys i ev later).Notes Inside := by
  rw [recordKey]
  split
  · obtain ⟨changed, yields⟩ := changeKey_yields inside
    refine Traced.notes_bind yields.notes fun changed _ => ?_
    obtain ⟨keys, returned⟩ := changed
    cases returned with
    | true => exact Traced.notes_pure
    | false => exact Traced.notes_bind (countClick_inside inside) fun _ _ => (assign_yields inside).notes
  · exact (assign_yields inside).notes

theorem checkKeyStatus_inside (keys : Keys) (ev : InputEvent) (later : Int) :
    (checkKeyStatus keys ev later).Notes Inside := by
  rw [checkKeyStatus]
  split
  · exact Traced.notes_bind debug_yields.notes fun _ _ => Traced.notes_pure
  split
  · exact Traced.notes_bind debug_yields.notes fun _ _ => Traced.notes_pure
  · refine Traced.notes_bind countLock_inside fun keys _ => ?_
    obtain ⟨⟨keys, i⟩, found, least⟩ := findKey_yields
    refine found.bind ?_
    show Traced.Notes Inside (if i = maxKeys then _ else _)
    split
    · exact Traced.notes_bind debug_yields.notes fun _ _ => Traced.notes_pure
    · rename_i other
      exact recordKey_inside (Nat.lt_of_le_of_ne least other)

/-- Whatever is in the table, every lookup that a timeout or an event makes stays inside. -/
theorem lookups_inside (keys : Keys) (tm : Int) (ev : InputEvent) (later : Int) :
    (checkPollTimeout keys tm).Notes Inside ∧ (checkKeyStatus keys ev later).Notes Inside := by
  obtain ⟨after, timeout⟩ := checkPollTimeout_yields keys tm
  exact ⟨timeout.notes, checkKeyStatus_inside keys ev later⟩

end Dwadelib.KeyTable
