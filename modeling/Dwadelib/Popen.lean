import Dwadelib.CInt
import Dwadelib.Descriptors
import Dwadelib.Run
import Dwadelib.While

namespace Dwadelib.Popen

/-! # Commands behind pipes

A program that runs commands by `m_popen`, the processes that come from it, and their descriptors. A call of
the program and the way of a child to its command are one step each: between two steps of one process the
others change their own descriptors only. A stream is told by its descriptor. Nobody but `m_pclose` waits for a
child, so it stays until then. A command can leave its process group and join one that its own processes have
made, but no other one.
-/

open Descriptors

abbrev Pid := Nat

/-- What `sysconf(_SC_OPEN_MAX)` says: a number, that there is none, or that it failed. -/
inductive Sysconf where
  | value (number : Nat)
  | indeterminate
  | failed
  deriving DecidableEq, Repr

/-- The number of descriptors that the system gives a process, and what it says of that. -/
structure Config where
  limit : Nat
  sysconf : Sysconf
  deriving DecidableEq, Repr

/-- What a forked child knows before it runs its command: its variables are copies. -/
structure Start where
  reads : Bool
  pfd0 : Nat
  pfd1 : Nat
  childpid : List Pid
  deriving DecidableEq, Repr

namespace Start

/-- The end that the parent keeps, which the child closes. -/
def dropped (start : Start) : Nat := if start.reads then start.pfd0 else start.pfd1

def kept (start : Start) : Nat := if start.reads then start.pfd1 else start.pfd0

/-- `STDOUT_FILENO` or `STDIN_FILENO`. -/
def stdio (start : Start) : Nat := if start.reads then 1 else 0

/-- The child's end of the pipe with this number. -/
def mine (start : Start) (number : Nat) : Description := if start.reads then .writing number else .reading number

end Start

/-- How a process has ended: by `_exit`, or by a signal, with a core dump or without. -/
inductive Ending where
  | exited (code : Int)
  | killed (signal : Nat) (dumped : Bool)
  deriving DecidableEq, Repr

/-- What `waitpid` stores: the low byte of the code in the second byte, or the signal in the first one. -/
def Ending.waitStatus : Ending → Int
  | .exited code => code % 256 * 256
  | .killed signal dumped => signal + if dumped then 128 else 0

theorem Ending.waitStatus_nonneg (ending : Ending) : 0 ≤ ending.waitStatus := by
  cases ending with
  | exited code => exact Int.mul_nonneg (Int.emod_nonneg code (by decide)) (by decide)
  | killed signal dumped =>
      unfold waitStatus
      split <;> omega

inductive Life where
  | starting (start : Start)
  | running
  | ended (ending : Ending)
  deriving DecidableEq, Repr

/-- A child or what came from it: `ancestor` is the child that was forked by `m_popen`, `mine` the end of the
pipe that is made for that. -/
structure Process where
  pid : Pid
  group : Pid
  table : Table
  life : Life
  mine : Description
  ancestor : Pid
  stopped : Bool

/-- The parent and all others. The length of `childpid[]` is `maxfd`. -/
structure State where
  table : Table
  group : Pid
  openmax : Int
  childpid : Option (List Pid)
  waiting : Option Pid
  processes : List Process
  pipes : Nat

/-- The calls that fail for reasons of the system. -/
structure Faults where
  calloc : Bool
  fork : Bool
  fdopen : Bool
  deriving DecidableEq, Repr

def OPEN_MAX_GUESS : Int := 256

/-- The value that is also remembered. -/
def openMax (sysconf : Sysconf) (openmax : Int) : Int :=
  if openmax = 0 then
    match sysconf with
    | .value number => number
    | .indeterminate => OPEN_MAX_GUESS
    | .failed => -1
  else openmax

/-- The first time through, an array is allocated. `maxfd` is an `int`; a negative one is too large a size. -/
def allocateChildpid (config : Config) (faults : Faults) (state : State) : State :=
  match state.childpid with
  | some _ => state
  | none =>
      let openmax := openMax config.sysconf state.openmax
      let maxfd := CInt.convert openmax
      if faults.calloc ∨ maxfd < 0 then { state with openmax := openmax }
      else { state with openmax := openmax, childpid := some (List.replicate maxfd.toNat 0) }

/-- The child has a copy of the descriptors; the parent closes the end that the child uses. -/
def State.forked (state : State) (start : Start) (pid : Pid) (table : Table) : State :=
  let child : Process := {
    pid := pid, group := state.group, table := table, life := .starting start, mine := start.mine state.pipes,
    ancestor := pid, stopped := false }
  { state with table := table.close start.kept, pipes := state.pipes + 1, processes := child :: state.processes }

/-- Behind the pipe: the child is forked and remembered. -/
def forkChild (start : Start) (faults : Faults) (pid : Pid) (table : Table) (state : State) :
    Outcome (State × Option Nat) :=
  if faults.fork then .returned ({ state with table := table, pipes := state.pipes + 1 }, none)
  else
    let forked := state.forked start pid table
    if faults.fdopen then .returned (forked, none)
    else if start.dropped < start.childpid.length then
      .returned ({ forked with childpid := some (start.childpid.set start.dropped pid) }, some start.dropped)
    else .undefined

/-- `pid` is what `fork` would return. The result is the stream, if there is one. -/
def mPopen (config : Config) (type : List Char) (faults : Faults) (pid : Pid) (state : State) :
    Outcome (State × Option Nat) :=
  if (type[0]? ≠ some 'r' ∧ type[0]? ≠ some 'w') ∨ type[1]? ≠ none then .returned (state, none)
  else
    let state := allocateChildpid config faults state
    match state.childpid with
    | none => .returned (state, none)
    | some childpid =>
        match pipe config.limit state.pipes state.table with
        | none => .returned (state, none)
        | some piped =>
            forkChild { reads := type[0]? = some 'r', pfd0 := piped.pfd0, pfd1 := piped.pfd1, childpid := childpid }
              faults pid piped.table state

/-- Up to `waitpid`: the result, none while the parent waits. -/
def mPclose (fp : Nat) (fcloseFails : Bool) (state : State) : Outcome (State × Option Int) :=
  match state.childpid with
  | none => .returned (state, some (-1))
  | some childpid => do
      let pid ← .ofOption childpid[fp]?
      if pid = 0 then return (state, some (-1))
      else
        let closed := { state with childpid := some (childpid.set fp 0), table := state.table.close fp }
        if fcloseFails then return (closed, some (-1)) else return ({ closed with waiting := some pid }, none)

def Process.alive (process : Process) : Bool :=
  match process.life with
  | .ended _ => false
  | _ => true

/-- What `errno` can be when `waitpid` fails. -/
inductive Errno where
  | EINTR
  | ECHILD
  | EINVAL
  deriving DecidableEq, Repr

/-- `waitpid` comes back with the wait status of the child, when that has ended. -/
def waitpid (state : State) : Option (State × Int) := do
  let pid ← state.waiting
  let process ← state.processes.find? fun process => process.pid = pid
  match process.life with
  | .ended ending =>
      some ({ state with
        waiting := none, processes := state.processes.filter fun process => process.pid ≠ pid }, ending.waitStatus)
  | _ => none

/-- `while (waitpid(pid, &stat, 0) < 0) if (errno != EINTR) return(-1);`: one time through, and the result of
`m_pclose` if it has one. -/
def mPcloseWait (failure : Option Errno) (state : State) : Option (State × Option Int) :=
  match failure with
  | none => (waitpid state).map fun result => (result.1, some result.2)
  | some errno =>
      if state.waiting = none then none
      else if errno ≠ .EINTR then some ({ state with waiting := none }, some (-1))
      else some (state, none)

/-- `kill(-pid, SIGTERM)`: every process of the group is signalled. -/
def killGroup (pid : Pid) (processes : List Process) : List Process :=
  processes.map fun process =>
    if process.group = pid ∧ process.alive then { process with stopped := true } else process

def mStopCmd (fp : Nat) (state : State) : Outcome (State × Int) :=
  match state.childpid with
  | none => .returned (state, -1)
  | some childpid => do
      let pid ← .ofOption childpid[fp]?
      if pid = 0 then return (state, -1)
      else if pid ≤ 1 then return (state, -1)
      else return ({ state with processes := killGroup pid state.processes }, 0)

/-- `for (i = 0; i < maxfd; i++) if (childpid[i] > 0) close(i);` -/
def closeStreams (childpid : List Pid) (table : Table) : Table :=
  (List.range childpid.length).foldl
    (fun table i => if 0 < childpid[i]?.getD 0 then table.close i else table) table

/-- What the child does to its descriptors before it runs its command. -/
def Start.wire (start : Start) (table : Table) : Table :=
  let table := table.close start.dropped
  let table := if start.kept ≠ start.stdio then (table.dup2 start.kept start.stdio).close start.kept else table
  closeStreams start.childpid table

/-- The child is its own group from here on. A command that cannot be run ends with `_exit(127)`. -/
def startChild (execlFails : Bool) (process : Process) : Option Process :=
  match process.life with
  | .starting start =>
      if execlFails then some { process with group := process.pid, table := fun _ => none, life := .ended (.exited 127) }
      else some { process with group := process.pid, table := start.wire process.table, life := .running }
  | _ => none

inductive Event where
  | popen (type : List Char) (faults : Faults) (pid : Pid)
  | pclose (fp : Nat) (fcloseFails : Bool)
  | waitpid
  | waitFails (errno : Errno)
  | stopCmd (fp : Nat)
  /-- The parent opens something else, or closes what is no stream of `m_popen`. -/
  | opens (name : Nat)
  | closes (fd : Nat)
  | starts (pid : Pid) (execlFails : Bool)
  /-- What a running command does. -/
  | childOpens (pid : Pid) (fd name : Nat)
  | childCloses (pid : Pid) (fd : Nat)
  | childDups (pid : Pid) (old new : Nat)
  | childForks (pid new : Pid)
  /-- `setsid` or `setpgid`. -/
  | childRegroups (pid group : Pid)
  | exits (pid : Pid) (code : Int)
  | killed (pid : Pid) (signal : Nat) (dumped : Bool)
  deriving DecidableEq, Repr

/-- What `childpid[]` says of a descriptor. -/
def State.pidAt (state : State) (fd : Nat) : Pid := ((state.childpid.getD [])[fd]?).getD 0

/-- A number that the system may give to a new process: it names no process, no group and no child that processes
descend from. -/
def State.fresh (state : State) (pid : Pid) : Bool :=
  1 < pid ∧ pid ≠ state.group ∧
    state.processes.all fun process => process.pid ≠ pid ∧ process.group ≠ pid ∧ process.ancestor ≠ pid

/-- One process changes. -/
def State.change (state : State) (pid : Pid) (change : Process → Option Process) : Option State := do
  let process ← state.processes.find? fun process => process.pid = pid
  let changed ← change process
  some { state with
    processes := state.processes.map fun process => if process.pid = pid then changed else process }

def whileRunning (process : Process) (table : Table) : Option Process :=
  if process.life = .running then some { process with table := table } else none

/-- A command calls `_exit`; a signal can come earlier. -/
def Process.mayEnd (process : Process) : Ending → Bool
  | .exited _ => process.life = .running
  | .killed signal _ => process.alive ∧ 0 < signal ∧ signal ≤ 64

def endProcess (ending : Ending) (process : Process) : Option Process :=
  if process.mayEnd ending then some { process with table := fun _ => none, life := .ended ending } else none

/-- A group of its own, or one that a process of the same command is in. -/
def State.mayJoin (state : State) (process : Process) (group : Pid) : Bool :=
  group = process.pid ∨ group ≠ state.group ∧
    state.processes.any fun other => other.ancestor = process.ancestor ∧ other.group = group

def State.regroup (state : State) (group : Pid) (process : Process) : Option Process :=
  if process.life = .running ∧ state.mayJoin process group then some { process with group := group } else none

/-- The parent does nothing while it waits, and uses open streams only. -/
def step (config : Config) (state : State) : Event → Option State
  | .popen type faults pid =>
      if state.waiting = none ∧ state.fresh pid then
        (mPopen config type faults pid state).toOption.map fun result => result.1
      else none
  | .pclose fp fcloseFails =>
      if state.waiting = none ∧ state.table fp ≠ none then
        (mPclose fp fcloseFails state).toOption.map fun result => result.1
      else none
  | .waitpid => (mPcloseWait none state).map fun result => result.1
  | .waitFails errno => (mPcloseWait (some errno) state).map fun result => result.1
  | .stopCmd fp =>
      if state.waiting = none ∧ state.table fp ≠ none then
        (mStopCmd fp state).toOption.map fun result => result.1
      else none
  | .opens name =>
      if state.waiting = none then
        (state.table.lowest config.limit).map fun fd => { state with table := state.table.assign fd (.other name) }
      else none
  | .closes fd =>
      if state.waiting = none ∧ state.pidAt fd = 0 then some { state with table := state.table.close fd } else none
  | .starts pid execlFails => state.change pid (startChild execlFails)
  | .childOpens pid fd name => state.change pid fun process =>
      whileRunning process (process.table.assign fd (.other name))
  | .childCloses pid fd => state.change pid fun process => whileRunning process (process.table.close fd)
  | .childDups pid old new => state.change pid fun process => whileRunning process (process.table.dup2 old new)
  | .childForks pid new =>
      if state.fresh new then
        (state.processes.find? fun process => process.pid = pid ∧ process.life = .running).map fun process =>
          { state with processes := { process with pid := new, stopped := false } :: state.processes }
      else none
  | .childRegroups pid group => state.change pid (state.regroup group)
  | .exits pid code => state.change pid (endProcess (.exited code))
  | .killed pid signal dumped => state.change pid (endProcess (.killed signal dumped))

/-- A program that has not called `m_popen`, and knows of no pipe. -/
structure Initial (state : State) : Prop where
  never : state.childpid = none
  idle : state.waiting = none
  alone : state.processes = []
  below : state.table.Below state.pipes

/-- A program with its three standard descriptors open. -/
def standard : State := {
  table := fun fd => if fd < 3 then some (.other fd) else none
  group := 100
  openmax := 0
  childpid := none
  waiting := none
  processes := []
  pipes := 0 }

theorem standard_initial : Initial standard := by
  refine ⟨rfl, rfl, rfl, fun fd description number holds isPipe => ?_⟩
  obtain ⟨-, same⟩ := Option.ite_none_right_eq_some.mp holds
  cases same
  contradiction

end Dwadelib.Popen
