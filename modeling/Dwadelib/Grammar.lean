import Dwadelib.CInt
import Dwadelib.Wgrep

namespace Dwadelib.Grammar

/-! # The check of the brackets of a file

The brackets that are open stand on a stack in an array. A file is read by `fgets` as the lines of
`wgrep` are.
-/

/-- `stack_t`; the characters of the array are not set when it is allocated. -/
structure Stack where
  capacity : Int
  top : Int
  array : List (Option UInt8)
  deriving DecidableEq, Repr

def minStackSize : Int := 128

def emptyStack : Int := -1

/-- `sizeof(stack_t)`: two `int` and a pointer. -/
def sizeofStack : Nat := 16

/-- The size of the array is that of the record. -/
def stackCreate : Stack :=
  { capacity := minStackSize, top := emptyStack, array := List.replicate sizeofStack none }

def stackIsEmpty (s : Stack) : Bool := s.top = emptyStack

def stackIsFull (s : Stack) : Bool := s.top = minStackSize

/-- The result, the stack and `data`; undefined outside of the array. -/
def stackPop (s : Stack) (data : Option UInt8) : Option (Int × Stack × Option UInt8) :=
  if stackIsEmpty s then some (-1, s, data)
  else do
    let data ← CInt.read s.array s.top
    some (0, { s with top := s.top - 1 }, data)

def stackPush (s : Stack) (data : UInt8) : Option (Int × Stack) :=
  if stackIsFull s then some (-1, s)
  else do
    let top := s.top + 1
    let array ← CInt.write s.array top (some data)
    some (0, { s with top := top, array := array })

/-- 1 for an opening bracket, 2 for a closing one. -/
def setBsFlag (flag : List Int) : List Int :=
  let flag := (flag.set '('.toNat 1).set ')'.toNat 2
  let flag := (flag.set '['.toNat 1).set ']'.toNat 2
  let flag := (flag.set '\x7b'.toNat 1).set '\x7d'.toNat 2
  (flag.set '<'.toNat 1).set '>'.toNat 2

/-- What is printed in the end: "code is ok", "code is fail" or "code fail". -/
inductive Verdict where
  | codeIsOk
  | codeIsFail
  | codeFail
  deriving DecidableEq, Repr

/-- The `switch` on a character; the jump to `OUT` ends the loops. -/
def check (bsFlag : List Int) (character : UInt8) (stack : Stack) (data : Option UInt8) :
    Outcome (Iteration (Stack × Option UInt8) Verdict) := do
  let index ← .ofOption (CString.charIndex character)
  let flag ← .ofOption bsFlag[index]?
  if flag = 1 then
    let (_, stack) ← .ofOption (stackPush stack character)
    return .next (stack, data)
  else if flag = 2 then
    if stackIsEmpty stack then return .stop .codeIsFail
    else
      let (_, stack, data) ← .ofOption (stackPop stack data)
      return .next (stack, data)
  else return .next (stack, data)

/-- `while (*temp)` -/
def checkLine (bsFlag : List Int) : (temp : List UInt8) → Stack → Option UInt8 →
    Outcome (Iteration (Stack × Option UInt8) Verdict)
  | [], _, _ => .undefined
  | character :: temp, stack, data =>
      if character = 0 then return .next (stack, data)
      else do
        match ← check bsFlag character stack data with
        | .next (stack, data) => checkLine bsFlag temp stack data
        | .stop verdict => return .stop verdict

structure State where
  unread : List UInt8
  stack : Stack
  data : Option UInt8

/-- One round of the loop over the lines, and what follows the last one. -/
def round (bsFlag : List Int) (state : State) : Outcome (Iteration State Verdict) := do
  match Wgrep.fgets (List.replicate 1024 0) state.unread with
  | none => return .stop (if stackIsEmpty state.stack then .codeIsOk else .codeFail)
  | some (line, unread) =>
      match ← checkLine bsFlag line state.stack state.data with
      | .next (stack, data) => return .next { unread := unread, stack := stack, data := data }
      | .stop verdict => return .stop verdict

/-- What is printed for a file; a round takes at least one byte from it. -/
def balanceSymbol (file : List UInt8) : Outcome Verdict :=
  whileLoop (round (setBsFlag (List.replicate 256 0))) (file.length + 1)
    { unread := file, stack := stackCreate, data := none }

end Dwadelib.Grammar
