import Dwadelib.CInt
import Dwadelib.While

namespace Dwadelib.Algorithm

/-! # The search of Knuth, Morris and Pratt

`k` is the index of the last character of the pattern that was found, -1 without one. The array
`next` has room for the table; what is in it before does not matter.
-/

/-- `while (k > -1 && T[k+1] != character) k = next[k]` -/
def fallBack (next : List Int) (T : List UInt8) (character : UInt8) (k : Int) : Outcome (Iteration Int Int) := do
  if k > -1 then
    let following ← .ofOption (CInt.read T (k + 1))
    if following ≠ character then
      let k ← .ofOption (CInt.read next k)
      return .next k
    else return .stop k
  else return .stop k

/-- Both loops fall back and go on with the character that they read. -/
def advance (next : List Int) (T : List UInt8) (character : UInt8) (k : Int) : Outcome Int := do
  let k ← whileLoop (fallBack next T character) ((k + 1).toNat + 1) k
  let following ← .ofOption (CInt.read T (k + 1))
  if following = character then return k + 1 else return k

structure Filling where
  next : List Int
  k : Int
  q : Int

/-- One round of the loop of `get_next`, with `q++` for the next one. -/
def fill (T : List UInt8) (len : Int) (filling : Filling) : Outcome (Iteration Filling (List Int)) := do
  if filling.q ≤ len then
    let character ← .ofOption (CInt.read T filling.q)
    let k ← advance filling.next T character filling.k
    let next ← .ofOption (CInt.write filling.next filling.q k)
    let q ← .ofOption (CInt.checked (filling.q + 1))
    return .next { next := next, k := k, q := q }
  else return .stop filling.next

def getNext (next : List Int) (T : List UInt8) (len : Int) : Outcome (List Int) := do
  let next ← .ofOption (CInt.write next 0 (-1))
  whileLoop (fill T len) (len.toNat + 1) { next := next, k := -1, q := 1 }

structure Scanning where
  k : Int
  i : Int

/-- One round of the loop of `KMP`, with `i++` for the next one. -/
def scan (next : List Int) (s : List UInt8) (len : Int) (p : List UInt8) (plen : Int) (scanning : Scanning) :
    Outcome (Iteration Scanning Int) := do
  if scanning.i < len then
    let character ← .ofOption (CInt.read s scanning.i)
    let k ← advance next p character scanning.k
    if k = plen - 1 then return .stop (scanning.i - plen + 1)
    else
      let i ← .ofOption (CInt.checked (scanning.i + 1))
      return .next { k := k, i := i }
  else return .stop (-1)

def kmp (next : List Int) (s : List UInt8) (len : Int) (p : List UInt8) (plen : Int) : Outcome Int := do
  let next ← getNext next p plen
  whileLoop (scan next s len p plen) (len.toNat + 1) { k := -1, i := 0 }

end Dwadelib.Algorithm
