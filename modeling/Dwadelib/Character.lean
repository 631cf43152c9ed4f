import Dwadelib.While
import Mathlib.Algebra.Ring.Int.Defs
import Mathlib.Algebra.Ring.Nat

namespace Dwadelib.Character

/-! # UTF-8 and big-endian units

A pointer into an array is what the array holds from there on; what is read behind its end is
undefined. `unsigned long` is a natural number, of which the code uses four bytes. Shifts of a
`char` are those of its bits, and what a `char` is stored into keeps the low eight of them.
-/

def encGetUtf8Size (pInput : UInt8) : Int :=
  let c := pInput
  if c < 0x80 then 0
  else if c ≥ 0x80 ∧ c < 0xC0 then -1
  else if c ≥ 0xC0 ∧ c < 0xE0 then 2
  else if c ≥ 0xE0 ∧ c < 0xF0 then 3
  else if c ≥ 0xF0 ∧ c < 0xF8 then 4
  else if c ≥ 0xF8 ∧ c < 0xFC then 5
  else if c ≥ 0xFC then 6
  else -1

/-- The value of an integer by its bytes, the low one first. -/
def littleEndian (bytes : List UInt8) : Nat := bytes.foldr (fun byte value => byte.toNat + 256 * value) 0

structure Decoded where
  utfbytes : Nat
  unic : Nat
  deriving DecidableEq, Repr

def refused : Decoded := { utfbytes := 0, unic := 0 }

/-- The character at a pointer and how many bytes it takes, none where there is no such character. -/
def encUtf8ToUnicodeOne (pInput : List UInt8) : Option Decoded := do
  let b1 ← pInput[0]?
  match encGetUtf8Size b1 with
  | 0 => some { utfbytes := 1, unic := littleEndian [b1] }
  | 2 =>
      let b2 ← pInput[1]?
      if b2 &&& 0xE0 ≠ 0x80 then some refused
      else some { utfbytes := 2, unic := littleEndian [b1.shiftLeft 6 + (b2 &&& 0x3F), b1.shiftRight 2 &&& 0x07] }
  | 3 =>
      let b2 ← pInput[1]?
      let b3 ← pInput[2]?
      if b2 &&& 0xC0 ≠ 0x80 ∨ b3 &&& 0xC0 ≠ 0x80 then some refused
      else some {
        utfbytes := 3
        unic := littleEndian [b2.shiftLeft 6 + (b3 &&& 0x3F), b1.shiftLeft 4 + (b2.shiftRight 2 &&& 0x0F)] }
  | 4 =>
      let b2 ← pInput[1]?
      let b3 ← pInput[2]?
      let b4 ← pInput[3]?
      if b2 &&& 0xC0 ≠ 0x80 ∨ b3 &&& 0xC0 ≠ 0x80 ∨ b4 &&& 0xC0 ≠ 0x80 then some refused
      else some {
        utfbytes := 4
        unic := littleEndian [b3.shiftLeft 6 + (b4 &&& 0x3F), b2.shiftLeft 4 + (b3.shiftRight 2 &&& 0x0F),
          (b1.shiftLeft 2 &&& 0x1C) + (b2.shiftRight 4 &&& 0x03)] }
  | 5 =>
      let b2 ← pInput[1]?
      let b3 ← pInput[2]?
      let b4 ← pInput[3]?
      let b5 ← pInput[4]?
      if b2 &&& 0xC0 ≠ 0x80 ∨ b3 &&& 0xC0 ≠ 0x80 ∨ b4 &&& 0xC0 ≠ 0x80 ∨ b5 &&& 0xC0 ≠ 0x80 then some refused
      else some {
        utfbytes := 5
        unic := littleEndian [b4.shiftLeft 6 + (b5 &&& 0x3F), b3.shiftLeft 4 + (b4.shiftRight 2 &&& 0x0F),
          b2.shiftLeft 2 + (b3.shiftRight 4 &&& 0x03), b1.shiftLeft 6] }
  | 6 =>
      let b2 ← pInput[1]?
      let b3 ← pInput[2]?
      let b4 ← pInput[3]?
      let b5 ← pInput[4]?
      let b6 ← pInput[5]?
      if b2 &&& 0xC0 ≠ 0x80 ∨ b3 &&& 0xC0 ≠ 0x80 ∨ b4 &&& 0xC0 ≠ 0x80 ∨ b5 &&& 0xC0 ≠ 0x80 ∨
          b6 &&& 0xC0 ≠ 0x80 then some refused
      else some {
        utfbytes := 6
        unic := littleEndian [b5.shiftLeft 6 + (b6 &&& 0x3F), b5.shiftLeft 4 + (b6.shiftRight 2 &&& 0x0F),
          b3.shiftLeft 2 + (b4.shiftRight 4 &&& 0x03), (b1.shiftLeft 6 &&& 0x40) + (b2 &&& 0x3F)] }
  | _ => some refused

/-- What a conversion has written and returned. -/
structure Converted where
  written : List UInt8
  value : Int
  deriving DecidableEq, Repr

structure Decoding where
  p : List UInt8
  written : List UInt8
  unicLen : Nat
  deriving DecidableEq, Repr

/-- `unic_len += 2` is undefined for the largest values of an `int`. -/
def Decoding.write (state : Decoding) (utfbytes : Nat) (unit : List UInt8) : Outcome Decoding :=
  if state.unicLen + 2 < 2 ^ 31 then
    .returned {
      p := state.p.drop utfbytes
      written := state.written ++ unit
      unicLen := state.unicLen + 2 }
  else .undefined

/-- Characters of one and of three bytes are written; others are passed over. -/
def decodeRound (state : Decoding) : Outcome (Iteration Decoding Converted) := do
  let byte ← .ofOption state.p[0]?
  if byte ≠ 0 then
    let decoded ← .ofOption (encUtf8ToUnicodeOne state.p)
    let output := decoded.unic
    match decoded.utfbytes with
    | 1 => return .next (← state.write 1 [0, UInt8.ofNat output])
    | 3 => return .next (← state.write 3 [UInt8.ofNat (output >>> 8), UInt8.ofNat output])
    | utfbytes => return .next { state with p := state.p.drop utfbytes }
  else return .stop { written := state.written, value := state.unicLen }

/-- The number of rounds is given from outside, as there may be no end of them. -/
def utf8ToUnicode (rounds : Nat) (pInput : List UInt8) : Outcome Converted :=
  whileLoop decodeRound rounds { p := pInput, written := [], unicLen := 0 }

/-- The bytes that are written for a character; as many are returned. -/
def encUnicodeToUtf8One (unic : Nat) (outSize : Int) : Outcome (List UInt8) :=
  if ¬ outSize ≥ 6 then .aborted
  else if unic ≤ 0x0000007F then
    .returned [UInt8.ofNat (unic &&& 0x7F)]
  else if unic ≥ 0x00000080 ∧ unic ≤ 0x000007FF then
    .returned [
      UInt8.ofNat (((unic >>> 6) &&& 0x1F) ||| 0xC0),
      UInt8.ofNat ((unic &&& 0x3F) ||| 0x80)]
  else if unic ≥ 0x00000800 ∧ unic ≤ 0x0000FFFF then
    .returned [
      UInt8.ofNat (((unic >>> 12) &&& 0x0F) ||| 0xE0),
      UInt8.ofNat (((unic >>> 6) &&& 0x3F) ||| 0x80),
      UInt8.ofNat ((unic &&& 0x3F) ||| 0x80)]
  else if unic ≥ 0x00010000 ∧ unic ≤ 0x001FFFFF then
    .returned [
      UInt8.ofNat (((unic >>> 18) &&& 0x07) ||| 0xF0),
      UInt8.ofNat (((unic >>> 12) &&& 0x3F) ||| 0x80),
      UInt8.ofNat (((unic >>> 6) &&& 0x3F) ||| 0x80),
      UInt8.ofNat ((unic &&& 0x3F) ||| 0x80)]
  else if unic ≥ 0x00200000 ∧ unic ≤ 0x03FFFFFF then
    .returned [
      UInt8.ofNat (((unic >>> 24) &&& 0x03) ||| 0xF8),
      UInt8.ofNat (((unic >>> 18) &&& 0x3F) ||| 0x80),
      UInt8.ofNat (((unic >>> 12) &&& 0x3F) ||| 0x80),
      UInt8.ofNat (((unic >>> 6) &&& 0x3F) ||| 0x80),
      UInt8.ofNat ((unic &&& 0x3F) ||| 0x80)]
  else if unic ≥ 0x04000000 ∧ unic ≤ 0x7FFFFFFF then
    .returned [
      UInt8.ofNat (((unic >>> 30) &&& 0x01) ||| 0xFC),
      UInt8.ofNat (((unic >>> 24) &&& 0x3F) ||| 0x80),
      UInt8.ofNat (((unic >>> 18) &&& 0x3F) ||| 0x80),
      UInt8.ofNat (((unic >>> 12) &&& 0x3F) ||| 0x80),
      UInt8.ofNat (((unic >>> 6) &&& 0x3F) ||| 0x80),
      UInt8.ofNat ((unic &&& 0x3F) ||| 0x80)]
  else .returned []

structure Encoding where
  unic : List UInt8
  written : List UInt8
  deriving DecidableEq, Repr

/-- `*unic != 0 || *(unic+1) != 0`: the second byte is not read behind a first one that is not zero. -/
def unitFollows (unic : List UInt8) : Option Bool := do
  let high ← unic[0]?
  if high ≠ 0 then some true
  else
    let low ← unic[1]?
    some (low ≠ 0)

def encodeRound (outSize : Int) (state : Encoding) : Outcome (Iteration Encoding Converted) := do
  let follows ← .ofOption (unitFollows state.unic)
  if follows then
    let high ← .ofOption state.unic[0]?
    let low ← .ofOption state.unic[1]?
    let longCh := (high.toNat <<< 8) ||| low.toNat
    let bytes ← encUnicodeToUtf8One longCh outSize
    return .next { unic := state.unic.drop 2, written := state.written ++ bytes }
  else return .stop { written := state.written, value := 0 }

/-- A round takes two bytes. -/
def unicodeToUtf8 (unic : List UInt8) (outSize : Int) : Outcome Converted :=
  whileLoop (encodeRound outSize) (unic.length + 1) { unic := unic, written := [] }

end Dwadelib.Character
