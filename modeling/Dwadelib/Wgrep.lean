import Dwadelib.Wgrep.Sunday
import Mathlib.Algebra.Ring.Nat

namespace Dwadelib.Wgrep

/-! # The lines of a file with a string in them

A file is read by `fgets` into an array of 1024 bytes; what is read at once is searched and counted
as a line.
-/

def newline : UInt8 := 10

/-- What `fgets` takes from a file: no more than `room` bytes and nothing behind a newline. -/
def upToNewline : (room : Nat) → (unread : List UInt8) → List UInt8
  | 0, _ => []
  | _ + 1, [] => []
  | room + 1, byte :: unread => if byte = newline then [byte] else byte :: upToNewline room unread

/-- The array with what was read and a zero byte, and the rest of the file; `none`, the null pointer,
at the end of the file. -/
def fgets (line unread : List UInt8) : Option (List UInt8 × List UInt8) :=
  if unread = [] then none
  else
    let taken := upToNewline (line.length - 1) unread
    some (taken ++ 0 :: line.drop (taken.length + 1), unread.drop taken.length)

/-- What `"%d %s"` prints of a line. -/
structure Report where
  number : Nat
  line : List UInt8
  deriving DecidableEq, Repr

structure State where
  i : Nat
  unread : List UInt8
  printed : List Report

/-- One round of the loop: `i++` is undefined for the largest `int`, and so is the use of a value that
was not returned. -/
def round (argument : List UInt8) (state : State) : Outcome (Iteration State (List Report)) := do
  let line := List.replicate 1024 0
  match fgets line state.unread with
  | none => return .stop state.printed
  | some (line, unread) =>
      let step ← .ofOption (getStep argument)
      let value ← sundaySearch line argument step
      let ret ← .ofOption value
      let printed := if ret ≠ -1 then
        state.printed ++ [{ number := state.i, line := CString.contents line }] else state.printed
      if state.i + 1 < 2 ^ 31 then
        return .next { i := state.i + 1, unread := unread, printed := printed }
      else .undefined

/-- What is printed for a file. A round takes at least one byte from it. -/
def wgrep (pattern file : List UInt8) : Outcome (List Report) :=
  whileLoop (round (pattern ++ [0])) (file.length + 1) { i := 1, unread := file, printed := [] }

end Dwadelib.Wgrep
