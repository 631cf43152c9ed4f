import Dwadelib.Traced

namespace Dwadelib.Hex

/-! # Bytes as hexadecimal text

`byte_to_hexstr` writes two characters for each byte; `strhex2dec` reads a number off such text.
-/

/-- The elements of the two arrays that are used. -/
inductive Access where
  | source (index : Int)
  | dest (index : Int)
  deriving DecidableEq, Repr

/-- What a number becomes when it is stored in a `short`. -/
def toShort (value : Int) : Int := value.bmod (2 ^ 16)

/-- The character of half a byte: after `9`, which is 0x39, seven characters are left out. -/
def hexChar (half : UInt8) : UInt8 :=
  let half := half + 0x30
  if half > 0x39 then half + 0x07 else half

structure Writing where
  i : Int
  dest : List UInt8
  deriving DecidableEq, Repr

/-- One round of the loop of `byte_to_hexstr`; `i++` is stored in a `short`. -/
def hexRound (source : List UInt8) (sourceLen : Int) (writing : Writing) :
    Traced Access (Iteration Writing (List UInt8)) := do
  if writing.i < sourceLen then
    let highByte ← .read .source source writing.i
    let lowByte ← .read .source source writing.i
    let dest ← .write .dest writing.dest (writing.i * 2) (hexChar (highByte >>> 4))
    let dest ← .write .dest dest (writing.i * 2 + 1) (hexChar (lowByte &&& 0x0f))
    return .next { i := toShort (writing.i + 1), dest := dest }
  else return .stop writing.dest

def byteToHexstr (source dest : List UInt8) (sourceLen : Int) : Traced Access (List UInt8) :=
  .loop (hexRound source sourceLen) (sourceLen.toNat + 1) { i := 0, dest := dest }

/-- `char` is signed. -/
def charValue (char : UInt8) : Int := char.toInt8.toInt

/-- The value that a character has as a digit. -/
def digitValue (char : UInt8) : UInt32 :=
  let value := charValue char
  .ofInt (
    if value ≥ charValue 0x41 ∧ value ≤ charValue 0x46 then value - charValue 0x41 + 10
    else if value ≥ charValue 0x61 ∧ value ≤ charValue 0x66 then value - charValue 0x61 + 10
    else value - charValue 0x30)

structure Reading where
  i : UInt32
  temp : UInt32
  deriving DecidableEq, Repr

/-- One round of the loop of `strhex2dec`; for the comparison `len` becomes unsigned. -/
def decRound (s : List UInt8) (len : Int) (reading : Reading) : Outcome (Iteration Reading UInt32) := do
  if reading.i < .ofInt len then
    let char ← .ofOption s[reading.i.toNat]?
    return .next { i := reading.i + 1, temp := reading.temp * 16 + digitValue char }
  else return .stop reading.temp

def strhex2dec (s : List UInt8) (len : Int) : Outcome UInt32 :=
  whileLoop (decRound s len) ((UInt32.ofInt len).toNat + 1) { i := 0, temp := 0 }

end Dwadelib.Hex
