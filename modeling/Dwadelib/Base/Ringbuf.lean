import Dwadelib.Cells

namespace Dwadelib

/-! # The ring buffer of the base library

Each function takes its mutex first and releases it last, so a call is one step. `in` and
`out` are counters that run on freely; masking them with `size - 1` gives the cell.
-/

structure Ringbuf where
  buffer : List UInt8
  size : UInt32
  in_ : UInt32
  out : UInt32
  deriving DecidableEq, Repr

namespace Ringbuf

def isPowerOf2 (x : UInt32) : Bool := x != 0 && (x &&& (x - 1)) == 0

def ringbufCreate (size : UInt32) : Option Ringbuf :=
  if !isPowerOf2 size then none
  else some { buffer := List.replicate size.toNat 0, size, in_ := 0, out := 0 }

def ringbufAvailable (rb : Ringbuf) : UInt32 := rb.size - rb.in_ + rb.out

/-- The buffer afterwards and the number of bytes accepted of `buf`. -/
def ringbufPut (rb : Ringbuf) (buf : List UInt8) (len : UInt32) : Option (Ringbuf × UInt32) := do
  let putDataL := min len (rb.size - rb.in_ + rb.out)
  -- from `in` to the end of the buffer
  let afterL := min putDataL (rb.size - (rb.in_ &&& (rb.size - 1)))
  let first ← Cells.load buf 0 afterL.toNat
  let buffer ← Cells.store rb.buffer (rb.in_ &&& (rb.size - 1)).toNat first
  let second ← Cells.load buf afterL.toNat (putDataL - afterL).toNat
  let buffer ← Cells.store buffer 0 second
  some ({ rb with buffer, in_ := rb.in_ + putDataL }, putDataL)

/-- The ring buffer and `buf` afterwards, and the returned value. -/
def ringbufGet (rb : Ringbuf) (buf : List UInt8) (len : UInt32) :
    Option (Ringbuf × List UInt8 × UInt32) := do
  let getDataL := min len (rb.in_ - rb.out)
  -- from `out` to the end of the buffer
  let afterL := min getDataL (rb.size - (rb.out &&& (rb.size - 1)))
  let first ← Cells.load rb.buffer (rb.out &&& (rb.size - 1)).toNat afterL.toNat
  let buf ← Cells.store buf 0 first
  let second ← Cells.load rb.buffer 0 (getDataL - afterL).toNat
  let buf ← Cells.store buf afterL.toNat second
  let rb := { rb with out := rb.out + getDataL }
  let rb := if rb.in_ = rb.out then { rb with in_ := 0, out := 0 } else rb
  some (rb, buf, afterL)

end Ringbuf

end Dwadelib
