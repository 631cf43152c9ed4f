import Dwadelib.CInt
import Dwadelib.Memory.Loop
import Dwadelib.Run

namespace Dwadelib.MqTest

/-! # Counters updated here and by the readers of a queue

The parent updates its own counters and sends the update to four children, which make it on
the shared counters under a mutex. Both sets of counters are reached through a pointer to an array
of `DATA_COUNT` records, so that the step from one to the next is a whole array.
-/

def sunCount : Nat := 4

def dataCount : Nat := 10

/-- `db_t` -/
structure Db where
  index : Int
  count : Int
  deriving DecidableEq, Repr

/-- `data_t`, what is in a message. -/
structure Data where
  index : Nat
  op : Int
  deriving DecidableEq, Repr

/-- `db[i]->index = i; db[i]->count = 0`, where `db` is the memory from the first record on. -/
def dbInitAt (i : Nat) (db : List Db) : Option (List Db) :=
  CInt.write db (i * dataCount : Nat) { index := i, count := 0 }

def dbInit (db : List Db) : Option (List Db) := forRange 0 dataCount dbInitAt db

/-- `db[index]->count` -/
def dbCount (db : List Db) (index : Nat) : Option Int :=
  (CInt.read db (index * dataCount : Nat)).map Db.count

def dbSetCount (db : List Db) (index : Nat) (count : Int) : Option (List Db) := do
  let record ← CInt.read db (index * dataCount : Nat)
  CInt.write db (index * dataCount : Nat) { record with count := count }

/-- `count++` or `count--` -/
def counted (op count : Int) : Option Int :=
  if op = 1 then CInt.checked (count + 1) else CInt.checked (count - 1)

def dbUpdate (db : List Db) (data : Data) : Option (List Db) := do
  let count ← dbCount db data.index
  let count ← counted data.op count
  dbSetCount db data.index count

/-- Where a child is in its loop. The update of a shared counter is a load and a store. -/
inductive Sun where
  | receiving
  | received (data : Data)
  | locked (data : Data)
  | loaded (data : Data) (count : Option Int)
  | unlocking
  deriving DecidableEq, Repr

/-- The memory is `none` after an access outside of it or an overflow. `unsent` is set between the
parent's update and `mq_send`. -/
structure State where
  localDb : Option (List Db)
  dbMap : Option (List Db)
  unsent : Option Data
  queue : List Data
  dptr : Option Nat
  suns : List Sun
  deriving DecidableEq, Repr

inductive Event where
  | update (data : Data)
  | send (sent : Bool)
  | receive (sun : Nat)
  | noMessage (sun : Nat)
  | lock (sun : Nat)
  | load (sun : Nat)
  | store (sun : Nat)
  | unlock (sun : Nat)
  deriving DecidableEq, Repr

/-- What was done to the counters. -/
inductive Report where
  | nothing
  | updated (data : Data)
  | failed (data : Data)
  | applied (data : Data)

/-- The parent's loop: the indices are remainders by 10. A child's loop: the first message of the
queue goes to whoever receives, and `pthread_mutex_lock` waits until nobody holds the mutex. -/
def step (state : State) : Event → Option (State × Report)
  | .update data =>
      if state.unsent = none ∧ data.index < dataCount then
        some ({ state with localDb := state.localDb.bind (dbUpdate · data), unsent := some data }, .updated data)
      else none
  | .send sent =>
      match state.unsent with
      | none => none
      | some data =>
          if sent then some ({ state with unsent := none, queue := state.queue ++ [data] }, .nothing)
          else some ({ state with unsent := none }, .failed data)
  | .receive sun =>
      match state.suns[sun]?, state.queue with
      | some .receiving, data :: queue =>
          some ({ state with queue := queue, suns := state.suns.set sun (.received data) }, .nothing)
      | _, _ => none
  | .noMessage sun =>
      if state.suns[sun]? = some .receiving then some (state, .nothing) else none
  | .lock sun =>
      match state.suns[sun]?, state.dptr with
      | some (.received data), none =>
          some ({ state with dptr := some sun, suns := state.suns.set sun (.locked data) }, .nothing)
      | _, _ => none
  | .load sun =>
      match state.suns[sun]? with
      | some (.locked data) =>
          let count := state.dbMap.bind (dbCount · data.index)
          some ({ state with suns := state.suns.set sun (.loaded data count) }, .nothing)
      | _ => none
  | .store sun =>
      match state.suns[sun]? with
      | some (.loaded data count) =>
          let dbMap := do
            let db ← state.dbMap
            let count ← count
            let count ← counted data.op count
            dbSetCount db data.index count
          some ({ state with dbMap := dbMap, suns := state.suns.set sun .unlocking }, .applied data)
      | _ => none
  | .unlock sun =>
      match state.suns[sun]? with
      | some .unlocking =>
          some ({ state with dptr := none, suns := state.suns.set sun .receiving }, .nothing)
      | _ => none

/-- What was in the memory of the counters before `db_init` is given; `local_db` and the mapping
are declared with `DATA_COUNT` records. -/
def start (localDb dbMap : List Db) : State :=
  { localDb := dbInit localDb
    dbMap := dbInit dbMap
    unsent := none
    queue := []
    dptr := none
    suns := List.replicate sunCount .receiving }

/-- The updates that were made so far, in order. -/
structure History where
  updated : List Data
  failed : List Data
  applied : List Data
  deriving DecidableEq, Repr

def note (history : History) (_ : State) (_ : Event) : Report → History
  | .nothing => history
  | .updated data => { history with updated := history.updated ++ [data] }
  | .failed data => { history with failed := history.failed ++ [data] }
  | .applied data => { history with applied := history.applied ++ [data] }

def begin (localDb dbMap : List Db) : Run.Watched State History :=
  { state := start localDb dbMap, seen := { updated := [], failed := [], applied := [] } }

end Dwadelib.MqTest
