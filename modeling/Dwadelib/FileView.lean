import Dwadelib.CString
import Dwadelib.Seekable
import Mathlib.Data.Nat.Digits.Defs

namespace Dwadelib.FileView

/-! # A viewer for files and memory

The viewer shows 256 bytes of a file in sixteen lines and is moved by keys. What it draws depends on the
position and the format; between two drawings it takes a key, and while an address is typed one key after the
other.
-/

open Seekable

def BUFHIGH : Nat := 16

def BUFWIDE : Nat := 16

def BUFSIZE : Nat := 256

/-- The room for a line, with its end. -/
def OUTLINE : Nat := 80

/-- What an operation on `long long` comes to; an overflow is undefined. -/
def longLong (value : Int) : Option Int := if -2 ^ 63 ≤ value ∧ value < 2 ^ 63 then some value else none

/-- `value & ~0xF` -/
def paragraph (value : Int) : Int := value - value % 16

section Drawing

variable {σ : Type}

structure Filling (σ : Type) where
  state : σ
  place : Nat
  toRead : Int
  buffer : List UInt8

/-- One round of the loop that reads until the buffer is full or nothing comes. -/
def fillRound (file : File σ) (filling : Filling σ) : Outcome (Iteration (Filling σ) (Filling σ)) :=
  if 0 < filling.toRead then
    let answer := file.read filling.state filling.toRead.toNat
    let nbytes := answer.2.1
    if nbytes ≤ 0 then return .stop { filling with state := answer.1 }
    else return .next {
      state := answer.1
      place := filling.place + nbytes.toNat
      toRead := filling.toRead - nbytes
      buffer := overlay filling.buffer filling.place answer.2.2 }
  else return .stop filling

def fill (file : File σ) (state : σ) : Outcome (Filling σ) :=
  whileLoop (fillRound file) (BUFSIZE + 1)
    { state := state, place := 0, toRead := BUFSIZE, buffer := List.replicate BUFSIZE 0xFF }

/-- The characters `0` to `9` and `A` to `F`. -/
def hexDigit (digit : Nat) : UInt8 := if digit < 10 then .ofNat (0x30 + digit) else .ofNat (0x37 + digit)

/-- `%0…llX`: as many digits as the width says, or as the number needs. -/
def hexPad (width value : Nat) : List UInt8 :=
  (List.range (max width (value.log2 / 4 + 1))).reverse.map fun k => hexDigit (value / 16 ^ k % 16)

def spaces (count : Nat) : List UInt8 := List.replicate count 0x20

/-- The number that bytes stand for in the machine, the least significant one first. -/
def littleEndian (bytes : List UInt8) : Nat := Nat.ofDigits 256 (bytes.map UInt8.toNat)

/-- The `j`-th element of an array of elements of a size. -/
def element (size j : Nat) (row : List UInt8) : List UInt8 := (row.drop (j * size)).take size

/-- An element as a number, with spaces before and behind it. -/
def field (size margin behind : Nat) (row : List UInt8) (j : Nat) : List UInt8 :=
  spaces margin ++ hexPad (2 * size) (littleEndian (element size j row)) ++ spaces behind

def fields (size margin behind : Nat) (row : List UInt8) : List UInt8 :=
  (List.range (BUFWIDE / size)).flatMap (field size margin behind row)

def hexFields (format : Nat) (row : List UInt8) : List UInt8 :=
  match format with
  | 1 => fields 1 0 1 row
  | 2 => fields 2 1 1 row
  | 4 => fields 4 2 2 row
  | 8 => fields 8 4 4 row
  | 16 =>
      spaces 5 ++
        (spaces 3 ++ hexPad 16 (littleEndian (element 8 1 row)) ++ hexPad 16 (littleEndian (element 8 0 row)) ++
          spaces 3) ++ spaces 5
  | _ => []

/-- `char` is signed. -/
def ascii (byte : UInt8) : UInt8 := if byte.toInt8.toInt < 0x20 ∨ byte.toInt8.toInt > 0x7E then 0x2E else byte

/-- The text that the calls of `sprintf` put together in `outline`. -/
def lineText (format : Nat) (location : Int) (row : List UInt8) : List UInt8 :=
  hexPad 13 (location % 2 ^ 64).toNat ++ spaces 1 ++ hexFields format row ++ row.map ascii

/-- Beyond the end of `outline` writing is undefined. -/
def outline (format : Nat) (location : Int) (row : List UInt8) : Option (List UInt8) :=
  if (lineText format location row).length < OUTLINE then some (lineText format location row) else none

/-- The lines of the screen; `location` comes from `lseek64` and advances line by line. -/
def drawLines (format : Nat) (buffer : List UInt8) : Nat → Int → Option (List (List UInt8))
  | 0, _ => some []
  | count + 1, location => do
      let drawn ← outline format location (buffer.take BUFWIDE)
      let location ← longLong (location + BUFWIDE)
      let rest ← drawLines format (buffer.drop BUFWIDE) count location
      some (drawn :: rest)

structure Drawn (σ : Type) where
  state : σ
  lines : List (List UInt8)

def draw (file : File σ) (position : Int) (format : Nat) (state : σ) : Outcome (Drawn σ) := do
  let moved := file.lseek state position
  let filling ← fill file moved.1
  let lines ← .ofOption (drawLines format filling.buffer BUFHIGH moved.2)
  return { state := filling.state, lines := lines }

end Drawing

def isHexDigit (byte : UInt8) : Bool := 0x30 ≤ byte ∧ byte ≤ 0x39 ∨ 0x41 ≤ byte ∧ byte ≤ 0x46 ∨ 0x61 ≤ byte ∧ byte ≤ 0x66

def hexValue (byte : UInt8) : Nat :=
  if byte ≤ 0x39 then byte.toNat - 0x30 else if byte ≤ 0x46 then byte.toNat - 0x37 else byte.toNat - 0x57

def isSpace (byte : UInt8) : Bool := byte = 0x20 ∨ 0x09 ≤ byte ∧ byte ≤ 0x0D

/-- `0x` counts as a prefix only before a digit. -/
def withoutPrefix (text : List UInt8) : List UInt8 :=
  match text with
  | first :: second :: third :: _ =>
      if first = 0x30 ∧ (second = 0x78 ∨ second = 0x58) ∧ isHexDigit third then text.drop 2 else text
  | _ => text

/-- `strtoull(text, NULL, 16)`; behind a minus sign the number is negated, as unsigned numbers are. -/
def strtoull (text : List UInt8) : Nat :=
  let text := text.dropWhile isSpace
  let negative := text.head? = some 0x2D
  let text := if text.head? = some 0x2D ∨ text.head? = some 0x2B then text.tail else text
  let value := ((withoutPrefix text).takeWhile isHexDigit).foldl (fun value byte => value * 16 + hexValue byte) 0
  if 2 ^ 64 ≤ value then 2 ^ 64 - 1
  else if negative then (2 ^ 64 - value) % 2 ^ 64
  else value

def KB_SEEK : Nat := 0x0000000A

def KB_QUIT : Nat := 0x0000001B

def KB_BACK : Nat := 0x0000007F

def KB_HOME : Nat := 0x00315B1B

def KB_LNUP : Nat := 0x00415B1B

def KB_PGUP : Nat := 0x00355B1B

def KB_LEFT : Nat := 0x00445B1B

def KB_RGHT : Nat := 0x00435B1B

def KB_LNDN : Nat := 0x00425B1B

def KB_PGDN : Nat := 0x00365B1B

def KB_END : Nat := 0x00345B1B

def KB_DEL : Nat := 0x00335B1B

def incmin : Int := 2 ^ 8

def incmax : Int := 2 ^ 36

def posmin : Int := 0

def posmax (filesize : Int) : Int :=
  if paragraph (filesize - 241) < posmin then posmin else paragraph (filesize - 241)

/-- What is waited for: a command, or a character of an address, with the text typed so far. -/
inductive Mode where
  | browsing
  | seeking (inbuf : List UInt8) (i : Nat)
  deriving DecidableEq, Repr

structure View where
  position : Int
  pageincr : Int
  format : Nat
  done : Bool
  mode : Mode
  deriving DecidableEq, Repr

def start : View := { position := 0, pageincr := incmin, format := 1, done := false, mode := .browsing }

/-- `pageincr` is brought back to its bounds before anything is drawn. -/
def restore (pageincr : Int) : Int :=
  if pageincr = 0 then incmax
  else if pageincr < incmin then incmin
  else if incmax < pageincr then incmax
  else pageincr

def within (filesize position : Int) : Int :=
  let position := if position < posmin then posmin else position
  if posmax filesize < position then posmax filesize else position

/-- A character is one of these, in upper or lower case. -/
def isLetter (inch : Nat) (upper lower : Nat) : Bool := inch = upper ∨ inch = lower

/-- The command that a key stands for. -/
def move (filesize : Int) (inch : Nat) (view : View) : Option View :=
  if isLetter inch 0x48 0x68 ∨ inch = KB_HOME then some { view with position := posmin }
  else if isLetter inch 0x45 0x65 ∨ inch = KB_END then some { view with position := posmax filesize }
  else if inch = KB_LNDN then (longLong (view.position + BUFWIDE)).map fun position => { view with position := position }
  else if inch = KB_LNUP then (longLong (view.position - BUFWIDE)).map fun position => { view with position := position }
  else if inch = KB_PGDN then
    (longLong (view.position + view.pageincr)).map fun position => { view with position := position }
  else if inch = KB_PGUP then
    (longLong (view.position - view.pageincr)).map fun position => { view with position := position }
  else if inch = KB_RGHT then some { view with pageincr := view.pageincr / 2 ^ 4 }
  else if inch = KB_LEFT then (longLong (view.pageincr * 2 ^ 4)).map fun pageincr => { view with pageincr := pageincr }
  else if isLetter inch 0x42 0x62 then some { view with format := 1 }
  else if isLetter inch 0x57 0x77 then some { view with format := 2 }
  else if isLetter inch 0x44 0x64 then some { view with format := 4 }
  else if isLetter inch 0x51 0x71 then some { view with format := 8 }
  else if isLetter inch 0x4F 0x6F then some { view with format := 16 }
  else if inch = KB_SEEK then some { view with mode := .seeking (List.replicate 16 0) 0 }
  else if inch = KB_QUIT then some { view with done := true }
  else some view

/-- What follows a command, and `position` in its bounds again. -/
def command (filesize : Int) (inch : Nat) (view : View) : Option View :=
  (move filesize inch view).map fun moved => { moved with position := within filesize moved.position }

/-- The address is taken. -/
def seek (filesize : Int) (inbuf : List UInt8) (view : View) : View :=
  let position := Int.bmod (strtoull (CString.contents inbuf)) (2 ^ 64)
  { view with position := within filesize (paragraph position), mode := .browsing }

/-- One key of an address; after fifteen characters it is taken as it is. -/
def character (filesize : Int) (ch : Nat) (inbuf : List UInt8) (i : Nat) (view : View) : Option View :=
  if ch = 0x0A then some (seek filesize inbuf view)
  else if ch = KB_QUIT then some (seek filesize (inbuf.set 0 0) view)
  else
    let ch := if ch = KB_LEFT ∨ ch = KB_DEL then KB_BACK else ch
    if ch = KB_BACK ∧ 0 < i then some { view with mode := .seeking (inbuf.set (i - 1) 0) (i - 1) }
    else if ch < 0x20 ∨ 0x7E < ch then some view
    else if i < inbuf.length then
      let inbuf := inbuf.set i (.ofNat ch)
      if i + 1 < 15 then some { view with mode := .seeking inbuf (i + 1) } else some (seek filesize inbuf view)
    else none

/-- One key: what `read` leaves in eight bytes, of which three count. -/
def press (filesize : Int) (view : View) (key : Nat) : Option View :=
  if view.done then none
  else
    match view.mode with
    | .browsing => command filesize (key % 2 ^ 24) { view with pageincr := restore view.pageincr }
    | .seeking inbuf i => character filesize (key % 2 ^ 24) inbuf i view

end Dwadelib.FileView
