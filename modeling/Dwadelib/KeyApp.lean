import Dwadelib.CInt
import Mathlib.Data.List.Basic

namespace Dwadelib

/-! # The key tracker

Four slots hold what is known of the keys that are down or were clicked a moment ago. A key
event or a poll timeout changes them and calls handlers. Times are in microseconds. The clicks of a
slot and the wake locks are counted in `int`, and what passes its range is undefined: `none`.
-/

namespace KeyApp

def maxKeys : Nat := 4
def keyClickGap : Int := 200000
def keyLongPressTime : Int := 3000000

/-- `KEY_RELEASE`, `KEY_PRESS` and `KEY_REPEAT` are 0, 1 and 2. -/
inductive KeyValue where
  | keyRelease
  | keyPress
  | keyRepeat
  deriving DecidableEq, Repr

inductive KeysStatus where
  | singelKeyPress
  | singelKeyRelease
  | longKeyPress
  deriving DecidableEq, Repr

structure KeyInfo where
  code : Nat
  status : KeyValue
  cnt : Nat
  deriving DecidableEq, Repr

/-- The `keys` table and the wake lock counter. -/
structure App where
  key : List KeyInfo
  startTime : Int
  pressCnt : Nat
  keysStatus : KeysStatus
  lockCnt : Int
  deriving DecidableEq, Repr

/-- The handlers that are called, with what they print, and the events that are refused. -/
inductive Report where
  | discareRepeatEvent (code : Nat) (value : KeyValue)
  | discareReleaseEvent (code : Nat)
  | tooManyKeysPressed
  | singleKeyHandle (code : Nat) (isPress : KeyValue) (cnt : Nat)
  | multipleKeyHandler (cnt : Nat) (printed : List Nat)
  | longKeyHandle (keyInfo : List KeyInfo)
  | longKey (codes : List Nat)
  | singleLongKeyRelease (code : Nat)
  deriving DecidableEq, Repr

/-- Which slot is the `index`th of those with clicks; the number of slots if there is none. -/
def getKeyInfoFrom : List KeyInfo → Nat → Nat → Nat
  | [], _, _ => 0
  | info :: rest, index, cnt =>
      if info.cnt ≠ 0 then
        if index = cnt then 0 else getKeyInfoFrom rest index (cnt + 1) + 1
      else getKeyInfoFrom rest index cnt + 1

def getKeyInfo (key : List KeyInfo) (index : Nat) : Nat := getKeyInfoFrom key index 0

def getKeyPressNum (key : List KeyInfo) : Nat :=
  key.countP fun info => info.status ≠ .keyRelease

def noKey : KeyInfo where
  code := 0
  status := .keyRelease
  cnt := 0

def keysInit (app : App) : App :=
  { app with key := List.replicate maxKeys noKey, pressCnt := 0 }

def clearKey (app : App) (index : Nat) : App :=
  { app with key := app.key.modify index fun info => { info with cnt := 0, code := 0 } }

def multipleKeyHandler (app : App) (cnt : Nat) : List Report :=
  let printed :=
    if cnt ≤ 4 ∧ cnt > 1 then
      (List.range cnt).reverse.filterMap fun index =>
        (app.key[getKeyInfo app.key index]?).map KeyInfo.code
    else []
  [.multipleKeyHandler cnt printed]

/-- What is done with the keys that a long press gathers. A key that was clicked before it was
held down counts as clicked. -/
def longKeyReports : List KeyInfo → List Report
  | [] => [.longKeyHandle []]
  | [info] =>
      if info.cnt ≠ 1 then
        [.longKeyHandle [info], .singleKeyHandle info.code info.status info.cnt]
      else [.longKeyHandle [info], .longKey [info.code]]
  | keyInfo => [.longKeyHandle keyInfo, .longKey (keyInfo.map KeyInfo.code)]

/-- `none` where it would read behind the slots. -/
def longKeyHandle (app : App) (cnt : Nat) : Option (App × List Report) := do
  let keyInfo ← (List.range cnt).mapM fun index => app.key[getKeyInfo app.key index]?
  some ({ app with keysStatus := .longKeyPress }, longKeyReports keyInfo)

def keyReleaseModify (app : App) (cnt : Nat) : App :=
  if cnt = 1 then keysInit app else app

def checkPollTimeout (app : App) (tm : Int) : Option (App × List Report) := do
  let cnt := app.key.countP fun info => info.cnt ≠ 0
  if cnt = 0 then some (app, [])
  else if tm ≥ keyLongPressTime then
    let cnt := app.key.countP fun info => info.cnt ≠ 0 ∧ info.status ≠ .keyRelease
    let (app, reports) ← longKeyHandle app cnt
    some ({ app with key := app.key.map fun info => { info with cnt := 0 } }, reports)
  else if tm ≥ keyClickGap ∧ cnt = 1 then
    let index := getKeyInfo app.key 0
    match app.key[index]? with
    | none => some (app, [])
    | some info =>
        if info.status = .keyRelease then
          some (clearKey app index, [.singleKeyHandle info.code info.status info.cnt])
        else some (app, [])
  else some (app, [])

def countLock (app : App) : KeyValue → Option App
  | .keyPress => (CInt.checked (app.lockCnt + 1)).map fun lockCnt => { app with lockCnt }
  | .keyRelease => (CInt.checked (app.lockCnt - 1)).map fun lockCnt => { app with lockCnt }
  | .keyRepeat => some app

/-- The first free slot for a key that has none. A click still waiting there is handled first if
no key is down. -/
def takeKey (app : App) : App × Nat × List Report :=
  let i := app.key.findIdx fun info => info.code = 0 ∨ info.status = .keyRelease
  if i = maxKeys then (app, i, [])
  else
    let reports :=
      if getKeyPressNum app.key = 0 then
        match app.key[getKeyInfo app.key 0]? with
        | some info => [.singleKeyHandle info.code info.status info.cnt]
        | none => []
      else []
    ({ app with key := app.key.modify i fun info => { info with cnt := 0 } }, i, reports)

/-- The slot of the key, or else a free one; the number of slots without either. -/
def findKey (app : App) (code : Nat) : App × Nat × List Report :=
  let i := app.key.findIdx fun info => info.code = code
  if i = maxKeys then takeKey app else (app, i, [])

/-- `keys.key[i].cnt += !!ev->value` for a released slot, if the event is a press or a release. -/
def countClick (info : KeyInfo) (value : KeyValue) : Option Nat :=
  if info.status = .keyRelease ∧ value ≠ .keyRepeat then
    CInt.checkedCount (info.cnt + if value = .keyPress then 1 else 0)
  else some info.cnt

/-- The last lines of `check_key_status`: the click is counted, the event stored. -/
def storeKey (app : App) (i code : Nat) (value : KeyValue) : Option App := do
  let info ← app.key[i]?
  let cnt ← countClick info value
  some { app with key := app.key.modify i fun _ => { code, status := value, cnt } }

/-- What the release of one of the keys means depends on how many are down. -/
def releaseKey (app : App) (i code : Nat) (later : Int) : Option (App × List Report) :=
  let stored (app : App) (reports : List Report) : Option (App × List Report) :=
    (storeKey app i code .keyRelease).map fun app => (app, reports)
  let j := getKeyPressNum app.key
  if j = 0 then stored { app with startTime := later } []
  else if app.pressCnt = 0 ∧ j > 1 then
    let reports := multipleKeyHandler app j
    stored (clearKey { app with pressCnt := j, startTime := later } i) reports
  else if app.pressCnt ≠ 0 ∧ j ≥ 1 then
    let app := keyReleaseModify (clearKey { app with pressCnt := j - 1 } i) j
    -- all keys of the combination are up
    if j = 1 then some (app, []) else stored app []
  else if app.pressCnt = 0 ∧ j = 1 then
    if app.keysStatus = .longKeyPress then
      let reports := (app.key[i]?).toList.map fun info => Report.singleLongKeyRelease info.code
      stored { app with keysStatus := .singelKeyPress } reports
    else stored app []
  else stored app []

def recordKey (app : App) (i code : Nat) (value : KeyValue) (later : Int) : Option (App × List Report) :=
  match value with
  | .keyRepeat => (storeKey app i code value).map fun app => (app, [])
  | .keyPress => (storeKey { app with startTime := later } i code value).map fun app => (app, [])
  | .keyRelease => releaseKey app i code later

/-- What is done with an event that has been counted. `later` is what `gettimeofday` tells then. -/
def placeKey (app : App) (code : Nat) (value : KeyValue) (later : Int) : Option (App × List Report) :=
  let (app, i, flushed) := findKey app code
  if i = maxKeys then some (app, flushed ++ [.tooManyKeysPressed])
  else (recordKey app i code value later).map fun result => (result.1, flushed ++ result.2)

def checkKeyStatus (app : App) (code : Nat) (value : KeyValue) (later : Int) : Option (App × List Report) :=
  if app.key.any fun info => info.code = code ∧ info.status = value then
    some (app, [.discareRepeatEvent code value])
  else if app.key.countP (fun info => info.code ≠ code) = maxKeys ∧ value = .keyRelease then
    some (app, [.discareReleaseEvent code])
  else (countLock app value).bind fun app => placeKey app code value later

inductive Event where
  | timeout (now : Int)
  | key (code : Nat) (value : KeyValue) (later : Int)
  deriving DecidableEq, Repr

/-- The time since the start is only looked at on a timeout. -/
def inputKeysAnalyse (app : App) : Event → Option (App × List Report)
  | .timeout now => checkPollTimeout app (now - app.startTime)
  | .key code value later => checkKeyStatus app code value later

end KeyApp

end Dwadelib
