import Dwadelib.KeyApp
import Dwadelib.Traced

namespace Dwadelib.KeyTable

open KeyApp (maxKeys keyClickGap keyLongPressTime)

/-! # The key tracker on its table

The fields of the table are numbers of any kind here, also those that no event leaves there. What is noted
are the lookups, at any index, and the printed texts.
-/

def keyRelease : Int := 0
def keyPress : Int := 1
def keyRepeat : Int := 2
def longKeyPress : Int := 2

structure KeyInfo where
  code : Int
  status : Int
  cnt : Int
  deriving DecidableEq, Repr

def noKey : KeyInfo where
  code := 0
  status := keyRelease
  cnt := 0

/-- The variables `keys` and `lock_cnt`. -/
structure Keys where
  key : List KeyInfo
  startTime : Int
  pressCnt : Int
  keysStatus : Int
  lockCnt : Int
  size : key.length = maxKeys
  deriving DecidableEq, Repr

structure InputEvent where
  type : Int
  code : Int
  value : Int
  deriving DecidableEq, Repr

/-- The two tables `str` are those of `single_key_handle` and of `multiple_key_handler`. -/
inductive Act where
  | key (index : Int)
  | keyInfo (index : Int)
  | singleStr (index : Int)
  | multipleStr (index : Int)
  | debug (text : String)
  deriving DecidableEq, Repr

def debug (text : String) : Traced Act Unit := .note (.debug text)

def pressText (isPress : Int) : String := if isPress ≠ 0 then "press" else "release"

/-- `keys.key[index]` -/
def look (keys : Keys) (index : Nat) : Traced Act KeyInfo := .read .key keys.key index

def changed (keys : Keys) (index : Nat) (change : KeyInfo → KeyInfo) : Keys :=
  { keys with key := keys.key.modify index change, size := by rw [List.length_modify, keys.size] }

/-- An assignment to fields of `keys.key[index]`. -/
def assign (keys : Keys) (index : Nat) (change : KeyInfo → KeyInfo) : Traced Act Keys where
  noted := [.key index]
  outcome := if index < maxKeys then .returned (changed keys index change) else .undefined

def assignAll (keys : Keys) (change : KeyInfo → KeyInfo) : Keys :=
  { keys with key := keys.key.map change, size := by rw [List.length_map, keys.size] }

def getKeyInfoFrom : List KeyInfo → Nat → Nat → Nat
  | [], _, _ => 0
  | info :: rest, index, cnt =>
      if info.cnt ≠ 0 then
        if index = cnt then 0 else getKeyInfoFrom rest index (cnt + 1) + 1
      else getKeyInfoFrom rest index cnt + 1

def getKeyInfo (keys : Keys) (index : Nat) : Nat := getKeyInfoFrom keys.key index 0

def getKeyPressNum (keys : Keys) : Nat := keys.key.countP fun info => info.status ≠ keyRelease

def keysInit (keys : Keys) : Keys := { assignAll keys fun _ => noKey with pressCnt := 0 }

def singleKeyHandle (code isPress cnt : Int) : Traced Act Unit := do
  if cnt ≤ 3 ∧ cnt > 0 then
    let str ← .read .singleStr ["single", "double", "triple"] (cnt - 1)
    debug s!"{str} key:[{code}] {pressText isPress}===yantt\n"
  else return ()

/-- One round of the loop of `multiple_key_handler`. -/
def printKey (keys : Keys) (cnt : Nat) : Traced Act Unit := do
  let index := getKeyInfo keys (cnt - 1)
  if index < maxKeys then
    let info ← look keys index
    debug s!"{info.code} "
  else return ()

def printKeys (keys : Keys) : (cnt : Nat) → Traced Act Unit
  | 0 => return ()
  | cnt + 1 => do
      printKey keys (cnt + 1)
      printKeys keys cnt

def multipleKeyHandler (keys : Keys) (cnt : Nat) : Traced Act Unit := do
  if cnt ≤ 4 ∧ cnt > 1 then
    let str ← .read .multipleStr ["two", "three", "four"] ((cnt : Int) - 2)
    debug s!"{str} keys:"
    printKeys keys cnt
    debug "press\n"
  else return ()

/-- The rounds from `i` on that fill in the array `key_info`. -/
def gather (keys : Keys) : (i left : Nat) → (keyInfo : List KeyInfo) → Traced Act (List KeyInfo)
  | _, 0, keyInfo => return keyInfo
  | i, left + 1, keyInfo => do
      let info ← look keys (getKeyInfo keys i)
      let keyInfo ← .write .keyInfo keyInfo i info
      gather keys (i + 1) left keyInfo

def printCodes (keyInfo : List KeyInfo) : (i left : Nat) → Traced Act Unit
  | _, 0 => return ()
  | i, left + 1 => do
      let info ← .read .keyInfo keyInfo i
      debug s!"[{info.code}]"
      printCodes keyInfo (i + 1) left

def printLongKey (keyInfo : List KeyInfo) (isPress : Int) (cnt : Nat) : Traced Act Unit := do
  debug s!"long key: cnt:{cnt} ===yantt"
  printCodes keyInfo 0 cnt
  debug s!"{pressText isPress}\n"

/-- The branches behind the loop of `long_key_handle`. -/
def tellLongKey (keyInfo : List KeyInfo) (isPress : Int) (cnt : Nat) : Traced Act Unit := do
  if cnt = 1 then
    let info ← .read .keyInfo keyInfo 0
    if info.cnt ≠ 1 then singleKeyHandle info.code info.status info.cnt
    else printLongKey keyInfo isPress cnt
  else if cnt = 0 then debug s!"long_key_handle: cnt:{cnt}\n"
  else printLongKey keyInfo isPress cnt

def longKeyHandle (keys : Keys) (isPress : Int) (cnt : Nat) : Traced Act Keys := do
  let keyInfo ← gather keys 0 cnt (.replicate maxKeys noKey)
  tellLongKey keyInfo isPress cnt
  return { keys with keysStatus := longKeyPress }

def singleLongKeyRelease (code : Int) : Traced Act Unit := debug s!"long key:{code} release\n"

def keyReleaseModify (keys : Keys) (cnt : Nat) : Keys := if cnt = 1 then keysInit keys else keys

def checkPollTimeout (keys : Keys) (tm : Int) : Traced Act Keys := do
  let cnt := keys.key.countP fun info => info.cnt ≠ 0
  if cnt = 0 then return keys
  else if tm ≥ keyLongPressTime then
    let cnt := keys.key.countP fun info => info.cnt ≠ 0 ∧ info.status ≠ 0
    let keys ← longKeyHandle keys 1 cnt
    return assignAll keys fun info => { info with cnt := 0 }
  else if tm ≥ keyClickGap then
    if cnt = 1 then
      let index := getKeyInfo keys 0
      if index ≥ maxKeys then return keys
      else
        let info ← look keys index
        if info.status = keyRelease then
          singleKeyHandle info.code info.status info.cnt
          assign keys index fun info => { info with cnt := 0, code := 0 }
        else return keys
    else return keys
  else return keys

/-- A press or a release changes the counter of the wake locks and is printed. -/
def countLock (keys : Keys) (ev : InputEvent) : Traced Act Keys := do
  if ev.value = keyPress then
    let lockCnt ← .lift (.ofOption (CInt.checked (keys.lockCnt + 1)))
    debug s!"D.....key lock_cnt=[{lockCnt}][{ev.type}][{ev.code}][{ev.value}]\n"
    return { keys with lockCnt := lockCnt }
  else if ev.value = keyRelease then
    let lockCnt ← .lift (.ofOption (CInt.checked (keys.lockCnt - 1)))
    debug s!"U.....key lock_cnt=[{lockCnt}][{ev.type}][{ev.code}][{ev.value}]\n"
    return { keys with lockCnt := lockCnt }
  else return keys

/-- A click that waits is handled when no key is down. -/
def flush (keys : Keys) : Traced Act Unit := do
  if getKeyPressNum keys = 0 then
    let j := getKeyInfo keys 0
    if j < maxKeys then
      let info ← look keys j
      singleKeyHandle info.code info.status info.cnt
    else return ()
  else return ()

/-- The first free slot for a key that has none. -/
def takeKey (keys : Keys) : Traced Act (Keys × Nat) := do
  let i := keys.key.findIdx fun info => info.code = 0 ∨ info.status = keyRelease
  if i = maxKeys then return (keys, i)
  else
    flush keys
    let keys ← assign keys i fun info => { info with cnt := 0 }
    return (keys, i)

/-- The slot of the key, or else a free one; the number of slots without either. -/
def findKey (keys : Keys) (ev : InputEvent) : Traced Act (Keys × Nat) := do
  let i := keys.key.findIdx fun info => info.code = ev.code
  if i = maxKeys then takeKey keys else return (keys, i)

/-- `keys.key[i].cnt += !!ev->value` -/
def countClick (keys : Keys) (i : Nat) (ev : InputEvent) : Traced Act Keys := do
  let info ← look keys i
  if info.status = 0 then
    let cnt ← .lift (.ofOption (CInt.checked (info.cnt + if ev.value ≠ 0 then 1 else 0)))
    assign keys i fun info => { info with cnt := cnt }
  else return keys

def storeKey (keys : Keys) (i : Nat) (ev : InputEvent) : Traced Act Keys :=
  assign keys i fun info => { info with status := ev.value, code := ev.code }

def clearKey (keys : Keys) (i : Nat) : Traced Act Keys := assign keys i fun info => { info with cnt := 0, code := 0 }

/-- A press or a release, depending on how many keys are down. With `true` the function returns. -/
def changeKey (keys : Keys) (i : Nat) (ev : InputEvent) (later : Int) : Traced Act (Keys × Bool) := do
  let j := getKeyPressNum keys
  if j = 0 ∨ ev.value = keyPress then return ({ keys with startTime := later }, false)
  else if keys.pressCnt = 0 ∧ j > 1 then
    let keys := { keys with pressCnt := j }
    multipleKeyHandler keys j
    let keys ← clearKey keys i
    return ({ keys with startTime := later }, false)
  else if keys.pressCnt ≠ 0 ∧ j ≥ 1 then
    let keys ← clearKey { keys with pressCnt := (j : Int) - 1 } i
    return (keyReleaseModify keys j, j = 1)
  else if keys.pressCnt = 0 ∧ j = 1 then
    if keys.keysStatus = longKeyPress then
      let info ← look keys i
      singleLongKeyRelease info.code
      return ({ keys with keysStatus := 0 }, false)
    else return (keys, false)
  else return (keys, false)

def recordKey (keys : Keys) (i : Nat) (ev : InputEvent) (later : Int) : Traced Act Keys := do
  if ev.value ≠ keyRepeat then
    let (keys, returned) ← changeKey keys i ev later
    if returned then return keys
    else
      let keys ← countClick keys i ev
      storeKey keys i ev
  else storeKey keys i ev

/-- `later` is what `gettimeofday` tells when the event is handled. -/
def checkKeyStatus (keys : Keys) (ev : InputEvent) (later : Int) : Traced Act Keys := do
  if keys.key.any fun info => info.code = ev.code ∧ info.status = ev.value then
    debug s!"Discare repeat event[{ev.type}][{ev.code}][{ev.value}]\n"
    return keys
  else if keys.key.countP (fun info => info.code ≠ ev.code) = maxKeys ∧ ev.value = keyRelease then
    debug s!"No key pressed, discare release event[{ev.type}][{ev.code}][{ev.value}]\n"
    return keys
  else
    let keys ← countLock keys ev
    let (keys, i) ← findKey keys ev
    if i = maxKeys then
      debug "too many keys pressed\n"
      return keys
    else recordKey keys i ev later

/-- What arrives at the tracker, with the time. -/
inductive Input where
  | timeout (now : Int)
  | key (ev : InputEvent) (later : Int)
  deriving DecidableEq, Repr

/-- The time since the start is only looked at on a timeout. -/
def inputKeysAnalyse (keys : Keys) : Input → Traced Act Keys
  | .timeout now => checkPollTimeout keys (now - keys.startTime)
  | .key ev later => checkKeyStatus keys ev later

def analyseAll : Keys → List Input → Traced Act Keys
  | keys, [] => return keys
  | keys, input :: inputs => do
      let keys ← inputKeysAnalyse keys input
      analyseAll keys inputs

end Dwadelib.KeyTable
