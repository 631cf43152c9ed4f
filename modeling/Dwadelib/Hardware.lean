import Dwadelib.CString
import Dwadelib.Occurrence
import Dwadelib.Slices
import Dwadelib.Traced

namespace Dwadelib.Hardware

/-! # The serial number of a disk

It is taken from the reply of the device, or from the report of a program. What is noted are the places of
the array that are looked at. `hardware.cpp` and `disk.cpp` hold the same functions.
-/

/-- `isspace` for the locale that a program starts with. -/
def isspace (byte : UInt8) : Bool := byte = 32 ∨ 9 ≤ byte ∧ byte ≤ 13

/-- The two pointers that the functions move. -/
structure Span where
  serialS : Nat
  serialE : Nat
  deriving DecidableEq, Repr

/-- The string of the bytes between two pointers. -/
def copy (cells : List UInt8) (start : Nat) : (count : Nat) → Traced Nat (List UInt8)
  | 0 => return []
  | count + 1 => do
      let byte ← .peek id cells start
      let rest ← copy cells (start + 1) count
      return byte :: rest

/-- `'\0' == byte || isspace(byte)` -/
def isTail (byte : UInt8) : Bool := byte = 0 ∨ isspace byte

/-- One round of the loop of `trim_serial`. -/
def trimRound (cells : List UInt8) (span : Span) : Traced Nat (Iteration Span Span) := do
  if span.serialS < span.serialE then
    let front ← .peek id cells span.serialS
    if isspace front then return .next { span with serialS := span.serialS + 1 }
    else
      let back ← .peek id cells (span.serialE - 1)
      if isTail back then return .next { span with serialE := span.serialE - 1 }
      else return .stop span
  else return .stop span

def trimSerial (cells : List UInt8) (serial serialLen : Nat) (serialNo : List UInt8) : Traced Nat (List UInt8) := do
  let span ← .loop (trimRound cells) (serialLen + 1) { serialS := serial, serialE := serial + serialLen }
  if span.serialS < span.serialE then copy cells span.serialS (span.serialE - span.serialS)
  else return serialNo

/-- What `ioctl` fills in of `sg_io_hdr_t`. -/
structure SgIoHdr where
  info : Nat
  sbLenWr : Nat
  maskedStatus : Nat
  hostStatus : Nat
  driverStatus : Nat
  deriving DecidableEq, Repr

/-- What the system answers, and the array of the data after that. -/
structure Disk where
  fd : Int
  versionIoctl : Int
  version : Int
  sgIoctl : Int
  ioHdr : SgIoHdr
  data : List UInt8
  size : data.length = 0x00ff

/-- `SG_INFO_OK_MASK` is 1 and `SG_INFO_OK` is 0. -/
def scsiIo (disk : Disk) : Bool :=
  if disk.sgIoctl < 0 then false
  else if disk.ioHdr.info % 2 ≠ 0 ∧ disk.ioHdr.sbLenWr > 0 then false
  else if disk.ioHdr.maskedStatus ≠ 0 ∨ disk.ioHdr.hostStatus ≠ 0 ∨ disk.ioHdr.driverStatus ≠ 0 then false
  else true

/-- The new `serial_no` and what is returned. -/
def getDiskSerialByWay2 (disk : Disk) : Traced Nat (List UInt8 × Bool) := do
  if disk.fd = -1 then return ([], false)
  else if disk.versionIoctl < 0 ∨ disk.version < 30000 then return ([], false)
  else if scsiIo disk then
    let pageLen ← .peek id disk.data 3
    let serialNo ← trimSerial disk.data 4 pageLen.toNat []
    return (serialNo, !serialNo.isEmpty)
  else return ([], false)

def comma : UInt8 := 44
def newline : UInt8 := 10

/-- The string at a place. A function of the library may look at all of it and at its zero byte. -/
def stringAt (cells : List UInt8) (start : Nat) : Traced Nat (List UInt8) :=
  match CString.strlen (cells.drop start) with
  | none => .lift .undefined
  | some length =>
      { noted := List.range' start (length + 1)
        outcome := .returned (CString.contents (cells.drop start)) }

def strstr (cells : List UInt8) (start : Nat) (words : List UInt8) : Traced Nat (Option Nat) := do
  let text ← stringAt cells start
  return (occurrence words text).map fun index => start + index

def strchr (cells : List UInt8) (start : Nat) (byte : UInt8) : Traced Nat (Option Nat) := do
  let text ← stringAt cells start
  return (text.findIdx? fun other => other = byte).map fun index => start + index

/-- `while (isspace(serial_s[0])) ++serial_s` -/
def skipRound (line : List UInt8) (serialS : Nat) : Traced Nat (Iteration Nat Nat) := do
  let byte ← .peek id line serialS
  if isspace byte then return .next (serialS + 1) else return .stop serialS

/-- `while (serial_e > serial_s && isspace(serial_e[-1])) --serial_e` -/
def cutRound (line : List UInt8) (serialS serialE : Nat) : Traced Nat (Iteration Nat Nat) := do
  if serialE > serialS then
    let byte ← .peek id line (serialE - 1)
    if isspace byte then return .next (serialE - 1) else return .stop serialE
  else return .stop serialE

/-- The new `serial_no` and what is returned. -/
def parseSerial (line : List UInt8) (lineSize : Nat) (matchWords serialNo : List UInt8) :
    Traced Nat (List UInt8 × Bool) := do
  match ← strstr line 0 matchWords with
  | none => return (serialNo, false)
  | some found =>
      let serialS ← .loop (skipRound line) (line.length + 1) (found + matchWords.length)
      let serialE := (← strchr line serialS comma).getD lineSize
      let serialE ← .loop (cutRound line serialS) (serialE + 1) serialE
      if serialE ≤ serialS then return (serialNo, false)
      else return (← copy line serialS (serialE - serialS), true)

/-- A file that is read, and the array for its lines. -/
structure Ifs where
  unread : List UInt8
  eof : Bool
  fail : Bool
  gcount : Nat
  line : List UInt8
  deriving DecidableEq, Repr

/-- The bytes before a newline, but not more than there is room for. -/
def untilNewline : (room : Nat) → (unread : List UInt8) → List UInt8
  | 0, _ => []
  | _ + 1, [] => []
  | room + 1, byte :: unread => if byte = newline then [] else byte :: untilNewline room unread

/-- `getline` stores bytes and a zero byte. The newline behind them is counted and not stored; it fails where the
array is too small, and where there was nothing. -/
def getline (ifs : Ifs) : Ifs :=
  let taken := untilNewline (ifs.line.length - 1) ifs.unread
  let line := taken ++ 0 :: ifs.line.drop (taken.length + 1)
  match ifs.unread.drop taken.length with
  | [] => { unread := [], eof := true, fail := taken.isEmpty, gcount := taken.length, line := line }
  | byte :: unread =>
      if byte = newline then { unread := unread, eof := false, fail := false, gcount := taken.length + 1, line := line }
      else { unread := byte :: unread, eof := false, fail := true, gcount := taken.length, line := line }

/-- A place of the array that held a line. -/
structure Inspection where
  line : List UInt8
  place : Nat
  deriving DecidableEq, Repr

/-- One round of the loop of `get_serial`. -/
def serialRound (matchWords : List UInt8) (state : Ifs × List UInt8) :
    Traced Inspection (Iteration (Ifs × List UInt8) (List UInt8)) := do
  let (ifs, serialNo) := state
  if ifs.eof then return .stop serialNo
  else
    let ifs := getline ifs
    if ifs.eof ∨ ifs.fail then return .stop serialNo
    else if ifs.gcount = 0 then return .next (ifs, serialNo)
    else
      let (serialNo, found) ← .renote (fun place => { line := ifs.line, place := place })
        (parseSerial ifs.line (ifs.gcount - 1) matchWords serialNo)
      if found then return .stop serialNo else return .next (ifs, serialNo)

/-- The new `serial_no`. Each round takes at least a byte from the file. -/
def getSerial (file : Option (List UInt8)) (matchWords serialNo : List UInt8) : Traced Inspection (List UInt8) :=
  match file with
  | none => return serialNo
  | some text =>
      .loop (serialRound matchWords) (text.length + 1)
        ({ unread := text, eof := false, fail := false, gcount := 0, line := .replicate 4096 0 }, serialNo)

end Dwadelib.Hardware
