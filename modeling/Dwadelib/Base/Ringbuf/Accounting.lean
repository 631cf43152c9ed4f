import Dwadelib.Base.Ringbuf.Refinement
import Dwadelib.Run

namespace Dwadelib.Ringbuf

/-! # What the returned lengths tell

A writer and a reader that go by the returned lengths: the accepted bytes are the first of each
put, the received bytes the first of each get. They agree as long as no get returns bytes from
both ends of the buffer, of which `ringbuf_get` only counts the first piece.
-/

structure Ledger where
  rb : Ringbuf
  accepted : List UInt8
  received : List UInt8
  putSum : Nat
  getSum : Nat
  deriving DecidableEq

variable {rb : Ringbuf} {size : UInt32} {ledger next : Ledger} {call : Call} {calls : List Call}

def opened (rb : Ringbuf) : Ledger where
  rb := rb
  accepted := []
  received := []
  putSum := 0
  getSum := 0

def record (ledger : Ledger) : Call → Option Ledger
  | .put buf len _ => do
      let (rb, returned) ← ringbufPut ledger.rb buf len
      some { ledger with
        rb
        accepted := ledger.accepted ++ buf.take returned.toNat
        putSum := ledger.putSum + returned.toNat }
  | .get buf len _ => do
      let (rb, buf, returned) ← ringbufGet ledger.rb buf len
      some { ledger with
        rb
        received := ledger.received ++ buf.take returned.toNat
        getSum := ledger.getSum + returned.toNat }

def storedCount (rb : Ringbuf) : Nat := (rb.in_ - rb.out).toNat

def storedBytes (rb : Ringbuf) : List UInt8 := Ring.window rb.buffer rb.out.toNat (storedCount rb)

/-- The sums differ by what is stored, and the streams by the stored bytes. -/
structure Accounted (ledger : Ledger) : Prop where
  sums : ledger.putSum = ledger.getSum + storedCount ledger.rb
  streams : ledger.accepted = ledger.received ++ storedBytes ledger.rb

/-- What a get takes out ends before the end of the buffer or at it. -/
def Uncut (ledger : Ledger) : Call → Prop
  | .put _ _ _ => True
  | .get _ len _ =>
      min len (ledger.rb.in_ - ledger.rb.out) ≤
        ledger.rb.size - (ledger.rb.out &&& (ledger.rb.size - 1))

def Intact (capacity : Nat) (ledger : Ledger) : Prop :=
  ∃ queue : BoundedQueue UInt8 capacity, Represents ledger.rb queue

section Step

variable {capacity : Nat} {queue : BoundedQueue UInt8 capacity} (related : Represents ledger.rb queue)
include related

theorem accounted_iff_of_related :
    Accounted ledger ↔ ledger.putSum = ledger.getSum + queue.stored.length ∧
      ledger.accepted = ledger.received ++ queue.stored := by
  have count : storedCount ledger.rb = queue.stored.length := related.count
  have bytes : storedBytes ledger.rb = queue.stored := by
    rw [storedBytes, count, related.contents]
  rw [← count, ← bytes]
  constructor
  · intro accounted
    exact ⟨accounted.sums, accounted.streams⟩
  · intro both
    exact { sums := both.1, streams := both.2 }

theorem uncut_get_iff {buf : List UInt8} {len : UInt32} {writable : len.toNat ≤ buf.length} :
    Uncut ledger (.get buf len writable) ↔
      min len.toNat queue.stored.length ≤ capacity - ledger.rb.out.toNat % capacity := by
  have masked := related.masked ledger.rb.out
  have inside := Nat.mod_lt ledger.rb.out.toNat related.nonempty
  rw [Uncut, UInt32.le_iff_toNat_le, toNat_min, related.count, UInt32.toNat_sub_of_le, masked, related.size]
  rw [UInt32.le_iff_toNat_le, masked, related.size]
  omega

end Step

/-- No call fails, and each keeps the ledger right exactly if it does not cut a get in two. -/
theorem record_spec {capacity : Nat} (intact : Intact capacity ledger) (call : Call) :
    ∃ next, record ledger call = some next ∧ Intact capacity next ∧
      (Accounted ledger → (Accounted next ↔ Uncut ledger call)) := by
  obtain ⟨queue, related⟩ := intact
  rw [accounted_iff_of_related related]
  cases call with
  | put buf len readable =>
      obtain ⟨after, returned, put, kept, length⟩ := ringbufPut_spec related readable
      refine ⟨_, by rw [record, put]; rfl, ⟨_, kept⟩, fun accounted => iff_of_true ?_ trivial⟩
      obtain ⟨sums, streams⟩ := accounted
      refine (accounted_iff_of_related kept).mpr ⟨?_, ?_⟩
      · rw [BoundedQueue.stored_put, List.length_append, List.length_take, List.length_take]
        dsimp only
        omega
      · rw [BoundedQueue.stored_put, List.take_take, Nat.min_comm, ← length, ← List.append_assoc, ← streams]
  | get buf len writable =>
      obtain ⟨after, returned, got, kept, length⟩ := ringbufGet_spec related writable
      refine ⟨_, by rw [record, got]; rfl, ⟨_, kept⟩, fun accounted => ?_⟩
      obtain ⟨sums, streams⟩ := accounted
      rw [uncut_get_iff related, accounted_iff_of_related kept, BoundedQueue.stored_get, List.length_drop]
      dsimp only
      constructor
      · intro balanced
        obtain ⟨sum, -⟩ := balanced
        omega
      · intro uncut
        have whole : returned.toNat = (queue.stored.take len.toNat).length := by
          rw [List.length_take]
          omega
        refine ⟨by omega, ?_⟩
        rw [whole, List.take_left, List.append_assoc, List.take_append_drop, streams]

/-- From a fresh buffer every sequence of calls can be made, and the returned lengths account for
every byte exactly if no get is cut in two by the end of the buffer. -/
theorem lengths_account_iff_uncut (created : ringbufCreate size = some rb) (calls : List Call) :
    (∃ last, Run.run record (opened rb) calls = some last) ∧
      (Run.Always record Accounted (opened rb) calls ↔ Run.Along record Uncut (opened rb) calls) := by
  have fresh : Represents (opened rb).rb (BoundedQueue.empty UInt8 size.toNat) := represents_create created
  have start : Intact size.toNat (opened rb) := ⟨_, fresh⟩
  have step : ∀ ledger call next, Intact size.toNat ledger → record ledger call = some next →
      Intact size.toNat next ∧ (Accounted ledger → (Accounted next ↔ Uncut ledger call)) := by
    intro ledger call next intact recorded
    obtain ⟨_, same, kept, agree⟩ := record_spec intact call
    cases recorded.symm.trans same
    exact ⟨kept, agree⟩
  constructor
  · obtain ⟨last, reached, -⟩ := Run.run_exists (fun ledger call intact => by
      obtain ⟨next, recorded, kept, -⟩ := record_spec intact call
      exact ⟨next, recorded, kept⟩) start calls
    exact ⟨last, reached⟩
  · refine Run.always_iff_along ?_ ?_ start ((accounted_iff_of_related fresh).mpr ⟨rfl, rfl⟩)
    · intro ledger call next intact accounted recorded
      exact (step ledger call next intact recorded).2 accounted
    · intro ledger call next intact accounted uncut recorded
      exact (step ledger call next intact recorded).1

theorem lengths_account_iff_uncut_eight :
    (∃ last, Run.run record (opened { buffer := List.replicate 8 0, size := 8, in_ := 0, out := 0 })
      [.put [1, 2, 3] 3 (by decide), .get [0, 0] 2 (by decide)] = some last) ∧
      (Run.Always record Accounted (opened { buffer := List.replicate 8 0, size := 8, in_ := 0, out := 0 })
        [.put [1, 2, 3] 3 (by decide), .get [0, 0] 2 (by decide)] ↔
      Run.Along record Uncut (opened { buffer := List.replicate 8 0, size := 8, in_ := 0, out := 0 })
        [.put [1, 2, 3] 3 (by decide), .get [0, 0] 2 (by decide)]) :=
  lengths_account_iff_uncut (show ringbufCreate 8 = some _ by decide) _

/-- The third put goes around the end of a buffer of eight cells; the get of it returns four for
six bytes. -/
theorem cut_get_unaccounted :
    ¬ Run.Always record Accounted (opened { buffer := List.replicate 8 0, size := 8, in_ := 0, out := 0 })
      [.put [1, 2, 3, 4, 5, 6] 6 (by decide), .get [0, 0, 0, 0] 4 (by decide),
        .put [7, 8, 9, 10, 11, 12] 6 (by decide), .get [0, 0, 0, 0, 0, 0] 6 (by decide)] := by
  intro always
  have accounted := always _ {
    rb := { buffer := [9, 10, 11, 12, 5, 6, 7, 8], size := 8, in_ := 12, out := 10 }
    accepted := [1, 2, 3, 4, 5, 6, 7, 8, 9, 10, 11, 12]
    received := [1, 2, 3, 4, 5, 6, 7, 8]
    putSum := 12
    getSum := 8 } (List.prefix_refl _) (by decide)
  exact absurd accounted.sums (by decide)

end Dwadelib.Ringbuf
