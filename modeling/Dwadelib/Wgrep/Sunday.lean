import Dwadelib.CInt
import Dwadelib.CString
import Dwadelib.Memory.Loop
import Dwadelib.While

namespace Dwadelib.Wgrep

/-! # Sunday's string search

After a mismatch the character behind the window tells how far the window can be moved. Strings
are arrays with a zero byte in them; what is read outside of an array is undefined. Lengths are
converted to `int`.
-/

/-- `step[b[i]] = sublen - i` -/
def enter (b : List UInt8) (sublen : Int) (i : Nat) (step : List Int) : Option (List Int) := do
  let byte ← b[i]?
  let index ← CString.charIndex byte
  some (step.set index (sublen - i))

/-- The table tells for each character how far it is from the end of `b`, one more if it is not in
`b`. The first parameter of strings, `a`, is not used. -/
def getStep (b : List UInt8) : Option (List Int) := do
  let length ← CString.strlen b
  let sublen := CInt.convert length
  forRange 0 sublen.toNat (enter b sublen) (List.replicate 256 (CInt.convert (length + 1)))

/-- Whether the `left` characters of `substr` from `j` on are in `mainstr` from `i` on. -/
def agrees (mainstr substr : List UInt8) : (left : Nat) → (i : Int) → (j : Nat) → Option Bool
  | 0, _, _ => some true
  | left + 1, i, j => do
      let character ← CInt.read mainstr i
      let wanted ← substr[j]?
      if character = wanted then agrees mainstr substr left (i + 1) (j + 1) else some false

/-- One round of the outer loop. It ends without a value when `i` has left the string. A negative
`sublen` is not reached by `j`, so that nothing is compared and nothing moves. -/
def searchFrom (mainstr substr : List UInt8) (step : List Int) (mainlen sublen i : Int) :
    Outcome (Iteration Int (Option Int)) := do
  if i < mainlen then
    let temp := i
    let equal ← .ofOption (agrees mainstr substr sublen.toNat i 0)
    if equal then
      if 0 ≤ sublen then return .stop (some temp) else return .next i
    else
      let character ← .ofOption (CInt.read mainstr (temp + sublen))
      let index ← .ofOption (CString.charIndex character)
      let shift ← .ofOption step[index]?
      let i ← .ofOption (CInt.checked (temp + shift))
      let reach ← .ofOption (CInt.checked (i + sublen))
      if reach > mainlen then return .stop (some (-1)) else return .next i
  else return .stop none

/-- `none` where the function ends without a `return`. A window that moves on does so at most
`mainlen` times; one that does not is never left. -/
def sundaySearch (mainstr substr : List UInt8) (step : List Int) : Outcome (Option Int) := do
  let mainLength ← .ofOption (CString.strlen mainstr)
  let subLength ← .ofOption (CString.strlen substr)
  let mainlen := CInt.convert mainLength
  let sublen := CInt.convert subLength
  whileLoop (searchFrom mainstr substr step mainlen sublen) (mainlen.toNat + 1) 0

end Dwadelib.Wgrep
