import Dwadelib.Base.ListMsg.Links
import Dwadelib.Base.ListMsg.Sequence
import Mathlib.Data.List.Find

namespace Dwadelib.ListMsg

/-! # The list is a sequence -/

open Circular Linked Simulation

variable {head node : Address} {heap after : Heap} {sequence next : Sequence head} {data : Int}

def perform (head : Address) (heap : Heap) : Call → Option (Heap × Answer)
  | .create node data => (nodeCreate node data heap).map fun heap => (heap, .done)
  | .release node => (heap.free node).map fun heap => (heap, .done)
  | .listAddHead node => (listAddHead node head heap).map fun heap => (heap, .done)
  | .stackPush node => (stackPush head node heap).map fun heap => (heap, .done)
  | .listAddTail node => (listAddTail node head heap).map fun heap => (heap, .done)
  | .queueIn node => (queueIn head node heap).map fun heap => (heap, .done)
  | .nodeAdd node => (nodeAdd head node heap).map fun heap => (heap, .done)
  | .queueOut => (queueOut head heap).map fun (heap, node) => (heap, .removed node)
  | .stackPop => (stackPop head heap).map fun (heap, node) => (heap, .removed node)
  | .listEmpty => (listEmpty head heap).map fun value => (heap, .empty value)
  | .nodeFind data => (nodeFind head data heap).toOption.map fun node => (heap, .found node)
  | .nodeDel data => (nodeDel head data heap).toOption.map fun (heap, freed) => (heap, .freed freed)
  | .destoryList => (destoryList head heap).toOption.map fun (heap, freed) => (heap, .freed freed)
  | .queueDestory => (queueDestory head heap).toOption.map fun (heap, freed) => (heap, .freed freed)

/-- The linked messages are in a circle with the head, and no other messages are alive than those of
the sequence. -/
structure Represents (heap : Heap) (sequence : Sequence head) : Prop where
  circle : Circle heap.nextOf heap.prevOf head sequence.linked
  alive : ∀ node, node ∈ heap ↔ node ∈ head :: (sequence.linked ++ sequence.loose)
  commands : ∀ node ∈ sequence.linked ++ sequence.loose, heap.heldOf node = some (sequence.cmd node)

theorem Represents.live (related : Represents heap sequence) : ∀ node ∈ head :: sequence.linked, node ∈ heap :=
  fun node member => (related.alive node).mpr (List.mem_append_left sequence.loose member)

/-- Messages were linked or unlinked. -/
theorem Represents.moved (related : Represents heap sequence)
    (circle : Circle after.nextOf after.prevOf head next.linked) (commands : after.heldOf = heap.heldOf)
    (same : (next.linked ++ next.loose).Perm (sequence.linked ++ sequence.loose)) (cmd : next.cmd = sequence.cmd) :
    Represents after next := by
  constructor
  · exact circle
  · intro node
    rw [mem_congr commands, related.alive, (same.cons head).mem_iff]
  · intro node member
    rw [commands, cmd]
    exact related.commands node (same.mem_iff.mp member)

/-- Messages were freed. -/
theorem Represents.freed (related : Represents heap sequence) (gone : List Address)
    (circle : Circle after.nextOf after.prevOf head next.linked)
    (commands : ∀ node, after.heldOf node = if node ∈ gone then none else heap.heldOf node) (spared : head ∉ gone)
    (left : ∀ node, node ∈ next.linked ++ next.loose ↔ node ∈ sequence.linked ++ sequence.loose ∧ node ∉ gone)
    (cmd : next.cmd = sequence.cmd) : Represents after next := by
  constructor
  · exact circle
  · intro node
    rw [mem_iff_heldOf, commands]
    by_cases isGone : node ∈ gone
    · have notHead : node ≠ head := ne_of_mem_of_not_mem isGone spared
      have notLeft : node ∉ next.linked ++ next.loose := fun member => ((left node).mp member).2 isGone
      rw [if_pos isGone, List.mem_cons]
      exact iff_of_false (by simp) (not_or.mpr ⟨notHead, notLeft⟩)
    · rw [if_neg isGone, ← mem_iff_heldOf, related.alive, List.mem_cons, List.mem_cons, left, and_iff_left isGone]
  · intro node member
    obtain ⟨before, stays⟩ := (left node).mp member
    rw [commands, if_neg stays, cmd]
    exact related.commands node before

section Calls

variable (related : Represents heap sequence)
include related

theorem Represents.create (data : Int) (fresh : node ∉ head :: (sequence.linked ++ sequence.loose)) :
    ∃ after, nodeCreate node data heap = some after ∧ Represents after (sequence.create node data fresh) := by
  have unused : node ∉ heap := fun live => fresh ((related.alive node).mp live)
  obtain ⟨after, created, next_after, prev_after, commands⟩ := allocate_links data unused
  have apart : ∀ other ∈ head :: (sequence.linked ++ sequence.loose), other ≠ node := fun other member =>
    ne_of_mem_of_not_mem member fresh
  have cmd : (sequence.create node data fresh).cmd = Function.update sequence.cmd node data := rfl
  refine ⟨after, created, ?_, ?_, ?_⟩
  · refine related.circle.congr fun other member => ?_
    have differs := apart other (List.mem_append_left sequence.loose member)
    rw [next_after, prev_after, Function.update_of_ne differs, Function.update_of_ne differs]
    exact ⟨rfl, rfl⟩
  · intro other
    have members : other ∈ head :: (sequence.linked ++ node :: sequence.loose) ↔
        other = node ∨ other ∈ head :: (sequence.linked ++ sequence.loose) := by
      rw [(List.perm_middle.cons head).mem_iff, List.mem_cons, List.mem_cons, List.mem_cons, or_left_comm]
    rw [mem_iff_heldOf, commands, Sequence.create, members, ← related.alive]
    by_cases same : other = node
    · rw [same, Function.update_self]
      exact iff_of_true rfl (Or.inl rfl)
    · rw [Function.update_of_ne same, ← mem_iff_heldOf, or_iff_right same]
  · intro other member
    rw [commands, cmd]
    by_cases same : other = node
    · rw [same, Function.update_self, Function.update_self]
    · have before : other ∈ sequence.linked ++ sequence.loose := by
        rcases List.mem_cons.mp (List.perm_middle.mem_iff.mp member) with equal | inside
        · contradiction
        · exact inside
      rw [Function.update_of_ne same, Function.update_of_ne same]
      exact related.commands other before

/-- The address of a message that is not linked is none of the circle's. -/
theorem Represents.outside (member : node ∈ sequence.loose) : node ∉ head :: sequence.linked ∧ node ∈ heap := by
  obtain ⟨notHead, distinct⟩ := List.nodup_cons.mp sequence.distinct
  obtain ⟨-, -, apart⟩ := List.nodup_append.mp distinct
  constructor
  · rw [List.mem_cons, not_or]
    exact ⟨ne_of_mem_of_not_mem (List.mem_append_right sequence.linked member) notHead,
      fun linked => apart node linked node member rfl⟩
  · exact (related.alive node).mpr (List.mem_cons_of_mem _ (List.mem_append_right _ member))

theorem Represents.release (member : node ∈ sequence.loose) :
    ∃ after, heap.free node = some after ∧ Represents after (sequence.release node) := by
  obtain ⟨outside, alive⟩ := related.outside member
  obtain ⟨other, unlinked⟩ := not_or.mp (List.mem_cons.not.mp outside)
  have looseDistinct := (List.nodup_append.mp (List.nodup_cons.mp sequence.distinct).2).2.1
  obtain ⟨after, freed, circle, commands⟩ := free_circle related.circle outside alive
  refine ⟨after, freed, related.freed [node] circle ?_ ?_ ?_ rfl⟩
  · intro kept
    rw [commands, Function.update_apply]
    simp only [List.mem_singleton]
  · exact List.mem_singleton.not.mpr (Ne.symm other)
  · intro kept
    simp only [Sequence.release, List.mem_append, looseDistinct.mem_erase_iff, List.mem_singleton]
    constructor
    · intro given
      rcases given with linked | ⟨differs, loose⟩
      · exact ⟨Or.inl linked, ne_of_mem_of_not_mem linked unlinked⟩
      · exact ⟨Or.inr loose, differs⟩
    · intro given
      obtain ⟨linked | loose, differs⟩ := given
      · exact Or.inl linked
      · exact Or.inr ⟨differs, loose⟩

theorem Represents.addFront (member : node ∈ sequence.loose) :
    ∃ after, listAddHead node head heap = some after ∧ Represents after (sequence.addFront node member) := by
  obtain ⟨outside, alive⟩ := related.outside member
  obtain ⟨after, added, circle, commands⟩ := listAddHead_circle related.circle related.live outside alive
  refine ⟨after, added, related.moved circle commands ?_ rfl⟩
  exact List.perm_middle.symm.trans ((List.perm_cons_erase member).symm.append_left _)

theorem Represents.addBack (member : node ∈ sequence.loose) :
    ∃ after, listAddTail node head heap = some after ∧ Represents after (sequence.addBack node member) := by
  obtain ⟨outside, alive⟩ := related.outside member
  obtain ⟨after, added, circle, commands⟩ := listAddTail_circle related.circle related.live outside alive
  refine ⟨after, added, related.moved circle commands ?_ rfl⟩
  rw [Sequence.addBack, List.append_assoc]
  exact (List.perm_cons_erase member).symm.append_left _

theorem Represents.takeFirst :
    ∃ after, queueOut head heap = some (after, sequence.takeFirst.2) ∧ Represents after sequence.takeFirst.1 := by
  cases parts : sequence.linked with
  | nil =>
      rw [Sequence.takeFirst_nil parts]
      exact ⟨heap, queueOut_empty related.circle related.live parts, related⟩
  | cons node rest =>
      obtain ⟨removed, left, loose, cmd⟩ := Sequence.takeFirst_cons parts
      obtain ⟨after, out, circle, commands⟩ := queueOut_circle related.circle related.live parts
      rw [removed]
      refine ⟨after, out, related.moved ?_ commands ?_ cmd⟩
      · rw [left]
        exact circle
      · rw [left, loose, parts]
        exact List.perm_middle

/-- A search by the commands in the heap is one by those of the sequence. -/
theorem Represents.search :
    (sequence.linked.find? fun node => heap.heldOf node = some data) = sequence.find data := by
  refine List.find?_congr fun node member => ?_
  simp only [related.commands node (List.mem_append_left _ member), Option.some.injEq]

theorem Represents.find : nodeFind head data heap = .returned (sequence.find data) := by
  rw [nodeFind_circle related.circle related.live, related.search]

theorem Represents.delete (found : sequence.find data = some node) :
    ∃ after, nodeDel head data heap = .returned (after, [node]) ∧ Represents after (sequence.delete node) := by
  have first := related.search.trans found
  have member : node ∈ sequence.linked := List.mem_of_find?_eq_some found
  obtain ⟨notHead, distinct⟩ := List.nodup_cons.mp sequence.distinct
  obtain ⟨linkedDistinct, -, apart⟩ := List.nodup_append.mp distinct
  obtain ⟨after, deleted, circle, commands⟩ := nodeDel_circle related.circle related.live first
  refine ⟨after, deleted, related.freed [node] circle ?_ ?_ ?_ rfl⟩
  · intro kept
    rw [commands, Function.update_apply]
    simp only [List.mem_singleton]
  · rw [List.mem_singleton]
    exact Ne.symm (ne_of_mem_of_not_mem (List.mem_append_left sequence.loose member) notHead)
  · intro kept
    simp only [Sequence.delete, List.mem_append, linkedDistinct.mem_erase_iff, List.mem_singleton]
    constructor
    · intro given
      rcases given with ⟨differs, linked⟩ | loose
      · exact ⟨Or.inl linked, differs⟩
      · exact ⟨Or.inr loose, (apart node member kept loose).symm⟩
    · intro given
      obtain ⟨linked | loose, differs⟩ := given
      · exact Or.inl ⟨differs, linked⟩
      · exact Or.inr loose

theorem Represents.clear :
    ∃ after, destoryList head heap = .returned (after, sequence.linked.reverse) ∧
      Represents after sequence.clear := by
  obtain ⟨notHead, distinct⟩ := List.nodup_cons.mp sequence.distinct
  obtain ⟨-, -, apart⟩ := List.nodup_append.mp distinct
  obtain ⟨after, destroyed, circle, commands⟩ := destoryList_circle related.circle related.live
  refine ⟨after, destroyed, related.freed sequence.linked circle (fun kept => ?_) ?_ ?_ rfl⟩
  · rw [commands]
  · exact fun linked => notHead (List.mem_append_left _ linked)
  · intro kept
    simp only [Sequence.clear, List.nil_append, List.mem_append]
    constructor
    · intro loose
      exact ⟨Or.inr loose, fun linked => apart kept linked kept loose rfl⟩
    · intro given
      obtain ⟨linked | loose, unlinked⟩ := given
      · contradiction
      · exact loose

end Calls

theorem perform_simulates :
    Simulates (perform head) Sequence.step fun heap (sequence : Sequence head) => Represents heap sequence := by
  constructor
  intro heap sequence call next answer related taken
  cases call with
  | create node data =>
      simp only [Sequence.step, Option.dite_none_right_eq_some, Option.some.injEq, Prod.mk.injEq] at taken
      obtain ⟨fresh, rfl, rfl⟩ := taken
      obtain ⟨after, created, represents⟩ := related.create data fresh
      exact ⟨after, by rw [perform, created, Option.map_some], represents⟩
  | release node =>
      simp only [Sequence.step, Option.ite_none_right_eq_some, Option.some.injEq, Prod.mk.injEq] at taken
      obtain ⟨member, rfl, rfl⟩ := taken
      obtain ⟨after, freed, represents⟩ := related.release member
      exact ⟨after, by rw [perform, freed, Option.map_some], represents⟩
  | listAddHead node =>
      simp only [Sequence.step, Option.dite_none_right_eq_some, Option.some.injEq, Prod.mk.injEq] at taken
      obtain ⟨member, rfl, rfl⟩ := taken
      obtain ⟨after, added, represents⟩ := related.addFront member
      exact ⟨after, by rw [perform, added, Option.map_some], represents⟩
  | stackPush node =>
      simp only [Sequence.step, Option.dite_none_right_eq_some, Option.some.injEq, Prod.mk.injEq] at taken
      obtain ⟨member, rfl, rfl⟩ := taken
      obtain ⟨after, added, represents⟩ := related.addFront member
      exact ⟨after, by rw [perform, stackPush, added, Option.map_some], represents⟩
  | listAddTail node =>
      simp only [Sequence.step, Option.dite_none_right_eq_some, Option.some.injEq, Prod.mk.injEq] at taken
      obtain ⟨member, rfl, rfl⟩ := taken
      obtain ⟨after, added, represents⟩ := related.addBack member
      exact ⟨after, by rw [perform, added, Option.map_some], represents⟩
  | queueIn node =>
      simp only [Sequence.step, Option.dite_none_right_eq_some, Option.some.injEq, Prod.mk.injEq] at taken
      obtain ⟨member, rfl, rfl⟩ := taken
      obtain ⟨after, added, represents⟩ := related.addBack member
      exact ⟨after, by rw [perform, queueIn, added, Option.map_some], represents⟩
  | nodeAdd node =>
      simp only [Sequence.step, Option.dite_none_right_eq_some, Option.some.injEq, Prod.mk.injEq] at taken
      obtain ⟨member, rfl, rfl⟩ := taken
      obtain ⟨after, added, represents⟩ := related.addBack member
      exact ⟨after, by rw [perform, nodeAdd, added, Option.map_some], represents⟩
  | queueOut =>
      cases taken
      obtain ⟨after, out, represents⟩ := related.takeFirst
      exact ⟨after, by rw [perform, out, Option.map_some], represents⟩
  | stackPop =>
      cases taken
      obtain ⟨after, out, represents⟩ := related.takeFirst
      exact ⟨after, by rw [perform, stackPop, out, Option.map_some], represents⟩
  | listEmpty =>
      cases taken
      exact ⟨heap, by rw [perform, listEmpty_circle related.circle, Option.map_some], related⟩
  | nodeFind data =>
      cases taken
      exact ⟨heap, by rw [perform, related.find, Outcome.toOption, Option.map_some], related⟩
  | nodeDel data =>
      cases found : sequence.find data with
      | none =>
          rw [Sequence.step, found] at taken
          cases taken
          have missing := nodeDel_missing related.circle related.live (related.search.trans found)
          exact ⟨heap, by rw [perform, missing, Outcome.toOption, Option.map_some], related⟩
      | some node =>
          rw [Sequence.step, found] at taken
          cases taken
          obtain ⟨after, deleted, represents⟩ := related.delete found
          exact ⟨after, by rw [perform, deleted, Outcome.toOption, Option.map_some], represents⟩
  | destoryList =>
      cases taken
      obtain ⟨after, destroyed, represents⟩ := related.clear
      exact ⟨after, by rw [perform, destroyed, Outcome.toOption, Option.map_some], represents⟩
  | queueDestory =>
      cases taken
      obtain ⟨after, destroyed, represents⟩ := related.clear
      exact ⟨after, by rw [perform, queueDestory, destroyed, Outcome.toOption, Option.map_some], represents⟩

/-- `list_msg_t head;` at file scope, before it is initialised. -/
def uninitialised (head : Address) : Heap := AList.singleton head { held := 0, next := none, prev := none }

theorem exists_start (head : Address) :
    ∃ start, listHeadInit head (uninitialised head) = some start ∧ Represents start (Sequence.start head) := by
  have alive : ∀ node, node ∈ uninitialised head ↔ node = head := by
    intro node
    rw [uninitialised, AList.mem_keys, AList.keys_singleton, List.mem_singleton]
  obtain ⟨start, initialised, next_start, prev_start, commands⟩ := listHeadInit_links ((alive head).mpr rfl)
  refine ⟨start, initialised, Circle.empty ?_ ?_, ?_, ?_⟩
  · rw [next_start, Function.update_self]
  · rw [prev_start, Function.update_self]
  · intro node
    rw [mem_congr commands, alive]
    exact List.mem_singleton.symm
  · intro node member
    contradiction

/-- Every run of calls that a sequence allows is answered as by the sequence. The messages then make a
circle with the head that can be walked both ways; nothing is lost or doubled, queues are first in,
first out and stacks last in, first out. -/
theorem list_refines_sequence {calls : List Call} {answers : List Answer} {final : Sequence head}
    (performed : performAll Sequence.step (Sequence.start head) calls = some (final, answers)) :
    ∃ start heap, listHeadInit head (uninitialised head) = some start ∧
      performAll (perform head) start calls = some (heap, answers) ∧
      Circle heap.nextOf heap.prevOf head final.linked ∧
      Inverse heap.nextOf heap.prevOf (head :: final.linked) ∧
      Inverse heap.prevOf heap.nextOf (head :: final.linked) ∧
      walk head heap.nextOf heap = .returned final.linked ∧
      walk head heap.prevOf heap = .returned final.linked.reverse ∧
      (calls.flatMap Call.entering).Perm (answers.flatMap Answer.leaving ++ final.linked) ∧
      ((∀ call ∈ calls, call.ofQueue = true) →
        calls.flatMap Call.entering = answers.flatMap Answer.leaving ++ final.linked) ∧
      ∀ before node inner after, calls = before ++ .stackPush node :: (inner ++ .stackPop :: after) →
        Balanced inner → answers[before.length + inner.length + 1]? = some (.removed (some node)) := by
  obtain ⟨start, initialised, begun⟩ := exists_start head
  obtain ⟨heap, ran, related⟩ := perform_simulates.performAll begun performed
  obtain ⟨forward, backward⟩ := walk_circle related.circle related.live
  refine ⟨start, heap, initialised, ran, related.circle, related.circle.inverse, related.circle.inverse_prev,
    forward, backward, Sequence.run_conserved performed, ?_, ?_⟩
  · intro queue
    exact Sequence.run_fifo queue performed
  · intro before node inner after same balanced
    obtain rfl := same
    exact Sequence.run_lifo balanced performed

theorem list_refines_sequence_mixed :
    ∃ start heap, listHeadInit 0 (uninitialised 0) = some start ∧
      performAll (perform 0) start [.create 1 7, .queueIn 1, .create 2 8, .stackPush 2, .create 3 7, .queueIn 3,
        .nodeDel 7, .stackPop] =
        some (heap, [.done, .done, .done, .done, .done, .done, .freed [1], .removed (some 2)]) ∧
      walk 0 heap.nextOf heap = .returned [3] := by
  have performed : ∃ final : Sequence 0, performAll Sequence.step (Sequence.start 0) [.create 1 7, .queueIn 1,
      .create 2 8, .stackPush 2, .create 3 7, .queueIn 3, .nodeDel 7, .stackPop] =
        some (final, [.done, .done, .done, .done, .done, .done, .freed [1], .removed (some 2)]) ∧
          final.linked = [3] := ⟨_, rfl, rfl⟩
  obtain ⟨final, performed, linked⟩ := performed
  obtain ⟨start, heap, initialised, ran, -, -, -, forward, -⟩ := list_refines_sequence performed
  rw [linked] at forward
  exact ⟨start, heap, initialised, ran, forward⟩

end Dwadelib.ListMsg
