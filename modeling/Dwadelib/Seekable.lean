import Dwadelib.While
import Mathlib.Data.List.Range

namespace Dwadelib

/-! # Files that are read in pieces

A file that can be told where to read from, and that may give less than is asked for. What it gives is what is
there, and it gives nothing only at its end. A reader that asks until it has enough, or until nothing comes, has
read what is there.
-/

namespace Seekable

/-- `lseek` from the beginning, and `read`: what comes back, and the bytes that are given. -/
structure File (σ : Type) where
  lseek : σ → Int → σ × Int
  read : σ → Nat → σ × Int × List UInt8

/-- The bytes from a place on. -/
def bytesAt (content : Nat → UInt8) (first count : Nat) : List UInt8 := (List.range count).map fun k => content (first + k)

variable {σ : Type} {file : File σ} {place : σ → Nat} {content : Nat → UInt8} {size first count more : Nat} {state : σ}

/-- The file has this content, as far as its size. -/
structure Serves (file : File σ) (place : σ → Nat) (content : Nat → UInt8) (size : Nat) : Prop where
  seeks : ∀ state (target : Nat), target ≤ size → ∃ after, file.lseek state target = (after, (target : Int)) ∧
    place after = target
  ends : ∀ state count, place state = size → ∃ after, file.read state count = (after, 0, []) ∧ place after = size
  gives : ∀ state count, place state < size → 0 < count → ∃ after n, 0 < n ∧ n ≤ count ∧ place state + n ≤ size ∧
    file.read state count = (after, (n : Int), bytesAt content (place state) n) ∧ place after = place state + n

theorem length_bytesAt : (bytesAt content first count).length = count := by
  rw [bytesAt, List.length_map, List.length_range]

theorem bytesAt_zero : bytesAt content first 0 = [] := rfl

theorem bytesAt_add : bytesAt content first (count + more) =
    bytesAt content first count ++ bytesAt content (first + count) more := by
  rw [bytesAt, List.range_add, List.map_append, List.map_map]
  refine congrArg _ (List.map_congr_left fun k _ => ?_)
  rw [Function.comp_apply, Nat.add_assoc]

/-- Bytes are written into a buffer from an index on. -/
def overlay (buffer : List UInt8) (index : Nat) (data : List UInt8) : List UInt8 :=
  buffer.take index ++ data ++ buffer.drop (index + data.length)

/-- Two writes behind each other are one. -/
theorem overlay_overlay {buffer data rest : List UInt8} {index : Nat}
    (fits : index + data.length + rest.length ≤ buffer.length) :
    overlay (overlay buffer index data) (index + data.length) rest = overlay buffer index (data ++ rest) := by
  have front : (buffer.take index ++ data).length = index + data.length := by
    rw [List.length_append, List.length_take]
    omega
  simp only [overlay]
  rw [List.take_left' front, List.drop_append, List.drop_eq_nil_of_le (by omega), front, List.drop_drop, List.nil_append,
    List.length_append, List.append_assoc, List.append_assoc, List.append_assoc]
  have behind : index + data.length + (index + data.length + rest.length - (index + data.length)) =
      index + (data.length + rest.length) := by omega
  rw [behind, List.append_assoc]

theorem overlay_nil (buffer : List UInt8) (index : Nat) : overlay buffer index [] = buffer := by
  rw [overlay, List.append_nil, List.length_nil, Nat.add_zero, List.take_append_drop]

/-- What is written over the first bytes. -/
theorem overlay_zero (buffer data : List UInt8) : overlay buffer 0 data = data ++ buffer.drop data.length := by
  rw [overlay, List.take_zero, List.nil_append, Nat.zero_add]

end Seekable

end Dwadelib
