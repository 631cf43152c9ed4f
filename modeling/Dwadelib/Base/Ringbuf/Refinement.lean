import Dwadelib.Base.Ringbuf
import Dwadelib.BoundedQueue
import Dwadelib.Ring
import Dwadelib.Simulation
import Mathlib.Algebra.Ring.Nat

namespace Dwadelib.Ringbuf

/-! # The ring buffer is a bounded queue of bytes -/

variable {rb after : Ringbuf} {size len : UInt32} {buf : List UInt8} {capacity : Nat}
  {queue : BoundedQueue UInt8 capacity}

theorem isPowerOf2_iff : isPowerOf2 size = true ↔ size.toNat.isPowerOfTwo := by
  rw [← Nat.ne_zero_and_sub_one_eq_zero_iff_isPowerOfTwo, isPowerOf2, Bool.and_eq_true, bne_iff_ne,
    beq_iff_eq, Ne, ← UInt32.toNat_inj]
  constructor
  · intro both
    obtain ⟨positive, masked⟩ := both
    refine ⟨positive, ?_⟩
    rw [← UInt32.toNat_inj, UInt32.toNat_and, UInt32.toNat_sub_of_le _ _ (by
      rw [UInt32.le_iff_toNat_le]
      exact Nat.one_le_iff_ne_zero.mpr positive)] at masked
    exact masked
  · intro both
    obtain ⟨positive, masked⟩ := both
    refine ⟨positive, ?_⟩
    rw [← UInt32.toNat_inj, UInt32.toNat_and, UInt32.toNat_sub_of_le _ _ (by
      rw [UInt32.le_iff_toNat_le]
      exact Nat.one_le_iff_ne_zero.mpr positive)]
    exact masked

theorem toNat_min (left right : UInt32) : (min left right).toNat = min left.toNat right.toNat := by
  change (if left ≤ right then left else right).toNat = _
  simp only [UInt32.le_iff_toNat_le, Nat.min_def]
  split
  · rfl
  · rfl

/-- The stored bytes lie from `out` on, around the end of the buffer. -/
structure Represents (rb : Ringbuf) (queue : BoundedQueue UInt8 capacity) : Prop where
  power : rb.size.toNat.isPowerOfTwo
  size : rb.size.toNat = capacity
  cells : rb.buffer.length = capacity
  count : (rb.in_ - rb.out).toNat = queue.stored.length
  contents : Ring.window rb.buffer rb.out.toNat queue.stored.length = queue.stored

section Counters

variable (related : Represents rb queue)
include related

theorem Represents.nonempty : 0 < capacity := by
  rw [← related.size]
  exact Nat.pos_of_isPowerOfTwo related.power

theorem Represents.dvd : capacity ∣ 2 ^ 32 := by
  obtain ⟨exponent, power⟩ := related.power
  have below := rb.size.toNat_lt
  rw [← related.size]
  rw [power] at below ⊢
  exact Nat.pow_dvd_pow 2 (Nat.le_of_lt ((Nat.pow_lt_pow_iff_right (by decide)).mp below))

/-- Masking a counter gives the cell it stands at. -/
theorem Represents.masked (counter : UInt32) :
    (counter &&& (rb.size - 1)).toNat = counter.toNat % capacity := by
  obtain ⟨exponent, power⟩ := related.power
  rw [UInt32.toNat_and, UInt32.toNat_sub_of_le _ _ (by
    rw [UInt32.le_iff_toNat_le, related.size]
    exact related.nonempty), ← related.size, power]
  exact Nat.and_two_pow_sub_one_eq_mod counter.toNat exponent

/-- `in` stands behind the last stored byte, also after it has wrapped. -/
theorem Represents.in_mod :
    rb.in_.toNat % capacity = (rb.out.toNat + queue.stored.length) % capacity := by
  have counters : rb.in_ = rb.out + (rb.in_ - rb.out) := by grind
  rw [counters, UInt32.toNat_add, related.count, Nat.mod_mod_of_dvd _ related.dvd]

theorem Represents.available : (rb.size - rb.in_ + rb.out).toNat = queue.free := by
  have counters : rb.size - rb.in_ + rb.out = rb.size - (rb.in_ - rb.out) := by grind
  have fits := queue.fits
  rw [counters, UInt32.toNat_sub_of_le _ _ (by
    rw [UInt32.le_iff_toNat_le, related.count, related.size]
    exact fits), related.count, related.size, BoundedQueue.free]

/-- What fits between a counter's cell and the end of the buffer, and what is left over. -/
theorem Represents.pieces {first : UInt32} (counter count : UInt32)
    (cut : min count (rb.size - (counter &&& (rb.size - 1))) = first) :
    first.toNat = min count.toNat (capacity - counter.toNat % capacity) ∧
      (count - first).toNat = count.toNat - first.toNat := by
  have masked := related.masked counter
  have inside := Nat.mod_lt counter.toNat related.nonempty
  have length : first.toNat = min count.toNat (capacity - counter.toNat % capacity) := by
    rw [← cut, toNat_min, UInt32.toNat_sub_of_le, masked, related.size]
    rw [UInt32.le_iff_toNat_le, masked, related.size]
    omega
  refine ⟨length, UInt32.toNat_sub_of_le _ _ ?_⟩
  rw [UInt32.le_iff_toNat_le, length]
  omega

end Counters

theorem represents_create (created : ringbufCreate size = some rb) :
    Represents rb (BoundedQueue.empty UInt8 size.toNat) := by
  unfold ringbufCreate at created
  split at created
  · contradiction
  · rename_i power
    cases created
    exact {
      power := isPowerOf2_iff.mp (by simpa using power)
      size := rfl
      cells := List.length_replicate
      count := by
        rw [UInt32.sub_self]
        rfl
      contents := Ring.window_zero
    }

/-- A put copies what fits behind the stored bytes. -/
theorem ringbufPut_spec (related : Represents rb queue) (readable : len.toNat ≤ buf.length) :
    ∃ after accepted, ringbufPut rb buf len = some (after, accepted) ∧
      Represents after (queue.put (buf.take len.toNat)) ∧
      accepted.toNat = min len.toNat queue.free := by
  have puts : (min len (rb.size - rb.in_ + rb.out)).toNat = min len.toNat queue.free := by
    rw [toNat_min, related.available]
  have masked := related.masked rb.in_
  have inside := Nat.mod_lt rb.in_.toNat related.nonempty
  have cells := related.cells
  have fits : queue.stored.length + queue.free = capacity := queue.length_add_free
  unfold ringbufPut
  simp only [Option.bind_eq_bind]
  generalize min len (rb.size - rb.in_ + rb.out) = putDataL at *
  generalize cut : min putDataL (rb.size - (rb.in_ &&& (rb.size - 1))) = afterL
  obtain ⟨firsts, rests⟩ := related.pieces rb.in_ putDataL cut
  have first : Cells.load buf 0 afterL.toNat = some ((buf.take putDataL.toNat).take afterL.toNat) := by
    rw [Cells.load_exists (by omega), List.drop_zero, List.take_take, Nat.min_eq_left (by omega)]
  have second : Cells.load buf afterL.toNat (putDataL - afterL).toNat =
      some ((buf.take putDataL.toNat).drop afterL.toNat) := by
    rw [Cells.load_exists (by omega), List.drop_take, rests]
  have length : (buf.take putDataL.toNat).length = putDataL.toNat := by
    rw [List.length_take]
    omega
  obtain ⟨written, toEnd⟩ : ∃ written, Cells.store rb.buffer (rb.in_ &&& (rb.size - 1)).toNat
      ((buf.take putDataL.toNat).take afterL.toNat) = some written :=
    ⟨_, Cells.store_exists (by rw [List.length_take]; omega)⟩
  obtain ⟨buffer, fromStart⟩ : ∃ buffer, Cells.store written 0
      ((buf.take putDataL.toNat).drop afterL.toNat) = some buffer :=
    ⟨_, Cells.store_exists (by
      rw [List.length_drop, length, Cells.length_of_store toEnd, Nat.zero_add, cells]
      exact Nat.le_trans (Nat.sub_le _ _) (by omega))⟩
  simp only [first, second, toEnd, fromStart, Option.bind_some]
  refine ⟨_, _, rfl, ?_, puts⟩
  have stored : (queue.put (buf.take len.toNat)).stored = queue.stored ++ buf.take putDataL.toNat := by
    rw [BoundedQueue.stored_put, List.take_take, puts, Nat.min_comm]
  have counter : (rb.in_ + putDataL - rb.out).toNat = queue.stored.length + putDataL.toNat := by
    have moved : rb.in_ + putDataL - rb.out = rb.in_ - rb.out + putDataL := by grind
    have bound := rb.size.toNat_lt
    have size := related.size
    rw [moved, UInt32.toNat_add, related.count, Nat.mod_eq_of_lt]
    omega
  exact {
    power := related.power
    size := related.size
    cells := (Cells.length_of_store fromStart).trans ((Cells.length_of_store toEnd).trans cells)
    count := by
      rw [stored, List.length_append, length]
      exact counter
    contents := by
      rw [stored, List.length_append]
      rw [Ring.window_written (by omega) (by omega) (by rw [masked, cells, related.in_mod]) (by omega) toEnd
        fromStart, related.contents]
  }

/-- A get copies the first stored bytes out and removes them. The value it returns is the length
of the first of the two pieces. -/
theorem ringbufGet_spec (related : Represents rb queue) (writable : len.toNat ≤ buf.length) :
    ∃ after returned, ringbufGet rb buf len =
        some (after, queue.stored.take len.toNat ++ buf.drop (min len.toNat queue.stored.length), returned) ∧
      Represents after (queue.get len.toNat) ∧
      returned.toNat = min (min len.toNat queue.stored.length) (capacity - rb.out.toNat % capacity) := by
  have gets : (min len (rb.in_ - rb.out)).toNat = min len.toNat queue.stored.length := by
    rw [toNat_min, related.count]
  have masked := related.masked rb.out
  have inside := Nat.mod_lt rb.out.toNat related.nonempty
  have cells := related.cells
  have fits := queue.fits
  unfold ringbufGet
  simp only [Option.bind_eq_bind]
  generalize min len (rb.in_ - rb.out) = getDataL at *
  generalize cut : min getDataL (rb.size - (rb.out &&& (rb.size - 1))) = afterL
  obtain ⟨firsts, rests⟩ := related.pieces rb.out getDataL cut
  have window : Ring.window rb.buffer (rb.out.toNat % capacity) getDataL.toNat =
      queue.stored.take len.toNat := by
    have cell : rb.out.toNat % capacity % rb.buffer.length = rb.out.toNat % rb.buffer.length := by
      rw [cells, Nat.mod_mod]
    rw [gets, ← Ring.take_window, Ring.window_congr cell, related.contents]
  have pieces : (rb.buffer.drop (rb.out.toNat % capacity)).take afterL.toNat ++
      rb.buffer.take (getDataL - afterL).toNat = queue.stored.take len.toNat := by
    rw [← window, Ring.window_pieces (by omega) (by omega), cells, ← firsts, ← rests]
  have first : Cells.load rb.buffer (rb.out &&& (rb.size - 1)).toNat afterL.toNat =
      some ((rb.buffer.drop (rb.out.toNat % capacity)).take afterL.toNat) := by
    rw [masked, Cells.load_exists (by omega)]
  have second : Cells.load rb.buffer 0 (getDataL - afterL).toNat =
      some (rb.buffer.take (getDataL - afterL).toNat) := by
    rw [Cells.load_exists (by omega), List.drop_zero]
  have length : ((rb.buffer.drop (rb.out.toNat % capacity)).take afterL.toNat).length = afterL.toNat := by
    rw [List.length_take, List.length_drop]
    omega
  have written : ((Cells.store buf 0 ((rb.buffer.drop (rb.out.toNat % capacity)).take afterL.toNat)).bind
      fun buf => Cells.store buf afterL.toNat (rb.buffer.take (getDataL - afterL).toNat)) =
      some (queue.stored.take len.toNat ++ buf.drop (min len.toNat queue.stored.length)) := by
    have joined := @Cells.store_store _ buf 0 ((rb.buffer.drop (rb.out.toNat % capacity)).take afterL.toNat)
      (rb.buffer.take (getDataL - afterL).toNat)
    rw [length, Nat.zero_add] at joined
    rw [joined, pieces, Cells.store_exists (by rw [List.length_take]; omega), List.take_zero,
      List.nil_append, Nat.zero_add, List.length_take]
  simp only [first, second, Option.bind_some]
  rw [← Option.bind_assoc, written, Option.bind_some]
  refine ⟨_, _, rfl, ?_, by rw [firsts, gets]⟩
  have counter : (rb.in_ - (rb.out + getDataL)).toNat = queue.stored.length - getDataL.toNat := by
    have moved : rb.in_ - (rb.out + getDataL) = rb.in_ - rb.out - getDataL := by grind
    rw [moved, UInt32.toNat_sub_of_le, related.count]
    rw [UInt32.le_iff_toNat_le, related.count]
    omega
  have left : (queue.get len.toNat).stored.length = queue.stored.length - getDataL.toNat := by
    rw [BoundedQueue.stored_get, List.length_drop]
    omega
  split
  · rename_i emptied
    have none : (queue.get len.toNat).stored.length = 0 := by
      rw [left, ← counter, emptied, UInt32.sub_self]
      rfl
    exact {
      power := related.power
      size := related.size
      cells := cells
      count := by
        rw [none, UInt32.sub_self]
        rfl
      contents := by rw [none, Ring.window_zero, List.length_eq_zero_iff.mp none]
    }
  · exact {
      power := related.power
      size := related.size
      cells := cells
      count := by rw [counter, left]
      contents := by
        have moved : (rb.out + getDataL).toNat % rb.buffer.length =
            (rb.out.toNat + getDataL.toNat) % rb.buffer.length := by
          rw [UInt32.toNat_add, cells, Nat.mod_mod_of_dvd _ related.dvd]
        rw [left, Ring.window_congr moved, ← Ring.drop_window (by omega) (by omega), related.contents,
          BoundedQueue.stored_get, List.drop_eq_drop_iff]
        omega
    }

/-- A call with a buffer of at least `len` bytes, as both functions expect it. -/
inductive Call where
  | put (buf : List UInt8) (len : UInt32) (readable : len.toNat ≤ buf.length)
  | get (buf : List UInt8) (len : UInt32) (writable : len.toNat ≤ buf.length)

/-- How many bytes a put has accepted, what a get has left in `buf`. -/
inductive Answer where
  | put (accepted : Nat)
  | get (buf : List UInt8)
  deriving DecidableEq

def perform (rb : Ringbuf) : Call → Option (Ringbuf × Answer)
  | .put buf len _ => (ringbufPut rb buf len).map fun result => (result.1, .put result.2.toNat)
  | .get buf len _ => (ringbufGet rb buf len).map fun result => (result.1, .get result.2.1)

/-- A bounded queue of bytes under the same calls: a get overwrites the front of `buf` only. -/
def performQueue (queue : BoundedQueue UInt8 capacity) : Call → Option (BoundedQueue UInt8 capacity × Answer)
  | .put buf len _ => some (queue.put (buf.take len.toNat), .put (min len.toNat queue.free))
  | .get buf len _ =>
      let taken := queue.stored.take len.toNat
      some (queue.get len.toNat, .get (taken ++ buf.drop taken.length))

theorem perform_simulates :
    Simulation.Simulates perform performQueue (Represents : Ringbuf → BoundedQueue UInt8 capacity → Prop) where
  matched := by
    intro rb queue call next answer related performed
    cases call with
    | put buf len readable =>
        cases performed
        obtain ⟨after, accepted, put, kept, length⟩ := ringbufPut_spec related readable
        refine ⟨after, ?_, kept⟩
        rw [perform, put, Option.map_some, length]
    | get buf len writable =>
        cases performed
        obtain ⟨after, returned, got, kept, -⟩ := ringbufGet_spec related writable
        refine ⟨after, ?_, kept⟩
        rw [perform, got, Option.map_some, List.length_take]

theorem performQueue_total (queue : BoundedQueue UInt8 capacity) (calls : List Call) :
    ∃ last answers, Simulation.performAll performQueue queue calls = some (last, answers) := by
  induction calls generalizing queue with
  | nil => exact ⟨queue, [], rfl⟩
  | cons call calls ih =>
      obtain ⟨next, answer, performed⟩ : ∃ next answer, performQueue queue call = some (next, answer) := by
        cases call with
        | put buf len readable => exact ⟨_, _, rfl⟩
        | get buf len writable => exact ⟨_, _, rfl⟩
      obtain ⟨last, answers, rest⟩ := ih next
      exact ⟨last, answer :: answers,
        Simulation.performAll_cons_eq_some.mpr ⟨next, answer, answers, performed, rest, rfl⟩⟩

/-- Under any calls a fresh ring buffer answers like an empty queue of its size, and its counters
tell how much that queue holds. -/
theorem ringbuf_refines_boundedQueue (created : ringbufCreate size = some rb) (calls : List Call) :
    ∃ after queue answers,
      Simulation.performAll performQueue (BoundedQueue.empty UInt8 size.toNat) calls = some (queue, answers) ∧
      Simulation.performAll perform rb calls = some (after, answers) ∧
      Represents after queue ∧ after.in_ - after.out ≤ size ∧
      (ringbufAvailable after).toNat = size.toNat - queue.stored.length := by
  obtain ⟨queue, answers, specified⟩ := performQueue_total (BoundedQueue.empty UInt8 size.toNat) calls
  obtain ⟨after, performed, related⟩ :=
    perform_simulates.performAll (represents_create created) specified
  refine ⟨after, queue, answers, specified, performed, related, ?_, ?_⟩
  · rw [UInt32.le_iff_toNat_le, related.count]
    exact queue.fits
  · exact related.available

theorem ringbuf_refines_boundedQueue_four :
    ∃ after queue answers,
      Simulation.performAll performQueue (BoundedQueue.empty UInt8 (4 : UInt32).toNat)
        [.put [1, 2, 3] 3 (by decide), .get [0, 0] 2 (by decide), .put [4, 5, 6, 7] 4 (by decide)] =
          some (queue, answers) ∧
      Simulation.performAll perform { buffer := [0, 0, 0, 0], size := 4, in_ := 0, out := 0 }
        [.put [1, 2, 3] 3 (by decide), .get [0, 0] 2 (by decide), .put [4, 5, 6, 7] 4 (by decide)] =
          some (after, answers) ∧
      Represents after queue ∧ after.in_ - after.out ≤ 4 ∧
      (ringbufAvailable after).toNat = (4 : UInt32).toNat - queue.stored.length :=
  ringbuf_refines_boundedQueue (show ringbufCreate 4 = some _ by decide) _

end Dwadelib.Ringbuf
