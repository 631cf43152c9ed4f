import Dwadelib.CInt
import Dwadelib.While

namespace Dwadelib.AmrDuration

/-! # How long a recording takes

The frames of a file are counted by their first bytes. What is read behind the end of the array of the
file's content is undefined.
-/

/-- The bytes of a frame of each type. -/
def amrFrameSize : List Nat := [13, 14, 16, 18, 20, 21, 27, 32, 6, 1, 1, 1, 1, 1, 1, 1, 1]

/-- A value that is stored in a `size_t`. -/
def sizeT (value : Int) : Nat := (value % 2 ^ 64).toNat

structure Walk where
  pos : Nat
  duration : Int
  deriving DecidableEq, Repr

/-- `toc & 0x04 != 0`; the comparison is made first. -/
def tocCounts (toc : UInt8) : Bool := toc &&& Bool.toUInt8 ((0x04 : Nat) != 0) ≠ 0

/-- What `pos` is added to was the index of a byte, so that a `size_t` holds the sum. -/
def frameRound (fileContent : List UInt8) (length : Nat) (walk : Walk) : Outcome (Iteration Walk Int) := do
  if walk.pos < length then
    let toc ← .ofOption fileContent[walk.pos]?
    let duration := if tocCounts toc then walk.duration + 20 else walk.duration
    let toc := (toc >>> 3) &&& 0x0f
    let toc := if toc ≥ 16 then 15 else toc
    let size ← .ofOption amrFrameSize[toc.toNat]?
    return .next { pos := walk.pos + size, duration := duration }
  else return .stop (CInt.convert walk.duration)

/-- Each round reads a byte of the content behind those of the rounds before. -/
def getDuration (fileContent : List UInt8) (len : Int) : Outcome Int :=
  whileLoop (frameRound fileContent (sizeT len)) (fileContent.length + 1) { pos := 6, duration := 0 }

end Dwadelib.AmrDuration
