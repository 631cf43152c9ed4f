import Dwadelib.CString
import Dwadelib.Traced
import Dwadelib.Wgrep

namespace Dwadelib.Monitor

open Wgrep (newline)

/-! # What a command writes is printed line by line -/

inductive Act where
  | stored (index : Int) (byte : UInt8)
  | printed (text : List UInt8)
  deriving DecidableEq, Repr

/-- The array and the index, and what the command has written and nobody has read. -/
structure Relay where
  temp : List UInt8
  i : Int
  unread : List UInt8
  deriving DecidableEq, Repr

/-- One byte of the pipe. At its end `fread` stores nothing. -/
def fread (relay : Relay) : Traced Act Relay :=
  match relay.unread with
  | [] => return relay
  | byte :: unread => do
      let temp ← .write (fun index => .stored index byte) relay.temp relay.i byte
      return { relay with temp := temp, unread := unread }

/-- `printf("%s", temp)` reads behind an array without a zero byte. -/
def print (temp : List UInt8) : Traced Act Unit :=
  if 0 ∈ temp then .note (.printed (CString.contents temp)) else .lift .undefined

/-- `i > 1023 || temp[i] == '\n'` -/
def flushes (relay : Relay) : Outcome Bool := do
  if relay.i > 1023 then return true
  else
    let byte ← .ofOption (CInt.read relay.temp relay.i)
    return byte = newline

/-- One round of the loop. `fread` returns 0 or 1 as a `size_t`, and never -1. -/
def relayRound (relay : Relay) : Traced Act (Iteration Relay Int) := do
  let relay ← fread relay
  if ← .lift (flushes relay) then
    print relay.temp
    return .next { relay with temp := .replicate 1024 0, i := 0 }
  else return .next { relay with i := relay.i + 1 }

/-- A number of rounds of the loop, which never ends; -1 where `popen` fails. -/
def systemCall (fp : Option (List UInt8)) (rounds : Nat) : Traced Act Int :=
  match fp with
  | none => return -1
  | some output => .loop relayRound rounds { temp := .replicate 1024 0, i := 0, unread := output }

end Dwadelib.Monitor
