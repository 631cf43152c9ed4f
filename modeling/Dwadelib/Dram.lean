import Dwadelib.CInt
import Dwadelib.Run
import Dwadelib.Seekable

namespace Dwadelib.Dram

/-! # The memory of the machine as a file

A driver that gives the physical memory page by page, and says with `llseek` how much there is.
-/

open Seekable

def PAGE_SIZE : Nat := 4096

/-- What the kernel tells of the memory: the number of its pages, which frames there are that `kmap` can map, and
the bytes. Frames may be missing between others. -/
structure Memory where
  numPhyspages : Nat
  present : Nat → Bool
  bytes : Nat → UInt8

/-- No frame is missing below the number of pages. -/
def Memory.NoHole (memory : Memory) : Prop := ∀ frame < memory.numPhyspages, memory.present frame = true

/-- `get_num_physpages() << PAGE_SHIFT` -/
def Memory.dramSize (memory : Memory) : Nat := memory.numPhyspages * PAGE_SIZE

/-- What a call comes to: its result, the bytes that the user gets and `*pos` after it. -/
structure Answer where
  result : Int
  data : List UInt8
  pos : Nat
  deriving DecidableEq, Repr

def EFAULT : Int := 14

def EINVAL : Int := 22

/-- `page_number` is an `int`; to map a page that is not there is undefined. `more` is what `copy_to_user` could not
copy. -/
def myRead (memory : Memory) (more count pos : Nat) : Option Answer :=
  if memory.dramSize ≤ pos then some { result := 0, data := [], pos := pos }
  else
    let pageNumber := CInt.convert (pos / PAGE_SIZE : Nat)
    let pageIndent := pos % PAGE_SIZE
    if 0 ≤ pageNumber ∧ memory.present pageNumber.toNat then
      let count := if PAGE_SIZE < pageIndent + count then PAGE_SIZE - pageIndent else count
      let data := bytesAt memory.bytes (pageNumber.toNat * PAGE_SIZE + pageIndent) count
      if more ≠ 0 then some { result := -EFAULT, data := data.take (count - more), pos := pos }
      else some { result := count, data := data, pos := pos + count }
    else none

/-- The result and `f_pos`. -/
def myLlseek (memory : Memory) (offset whence : Int) (pos : Nat) : Int × Nat :=
  let newpos : Int :=
    if whence = 0 then offset
    else if whence = 1 then pos + offset
    else if whence = 2 then memory.dramSize + offset
    else -1
  if newpos < 0 ∨ memory.dramSize < newpos then (-EINVAL, pos) else (newpos, newpos.toNat)

/-- No more than this is asked of a driver in one call. -/
def MAX_RW_COUNT : Nat := 2 ^ 31 - PAGE_SIZE

/-- The device as a program sees it. Where a page cannot be mapped nothing is known of what follows. -/
def device (memory : Memory) : File Nat where
  lseek pos offset :=
    let moved := myLlseek memory offset 0 pos
    (moved.2, moved.1)
  read pos count :=
    match myRead memory 0 (min count MAX_RW_COUNT) pos with
    | some answer => (answer.pos, answer.result, answer.data)
    | none => (pos, -1, [])

inductive Call where
  | llseek (offset whence : Int)
  | read (count more : Nat)
  deriving DecidableEq, Repr

/-- The bytes that were given since the beginning, with the places they are from, are what a program has seen. -/
structure State where
  pos : Nat
  seen : List (Nat × UInt8)
  deriving DecidableEq, Repr

def step (memory : Memory) (state : State) : Call → Option State
  | .llseek offset whence => some { state with pos := (myLlseek memory offset whence state.pos).2 }
  | .read count more => (myRead memory more (min count MAX_RW_COUNT) state.pos).map fun answer => {
      pos := answer.pos
      seen := state.seen ++ (List.range answer.data.length).map fun k => (state.pos + k, (answer.data[k]?).getD 0) }

end Dwadelib.Dram
