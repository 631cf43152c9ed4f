import Mathlib.Data.List.AList

namespace Dwadelib

/-! # Cells with two links

A heap of structures with a forward and a backward link in each. What is done with an address at which no
structure is alive, or with a link that was never set, is undefined. A heap is then seen through its links:
each write leaves them as an update of what they were.
-/

namespace Linked

/-- A structure with two links in it, and what it holds beside them. -/
structure Cell (α β : Type) where
  held : β
  next : Option α
  prev : Option α
  deriving DecidableEq, Repr

variable {α β : Type} [DecidableEq α]

abbrev Heap (α β : Type) := AList fun _ : α => Cell α β

namespace Heap

variable (heap : Heap α β)

def field {γ : Type} (read : Cell α β → Option γ) (node : α) : Option γ := do
  let cell ← heap.lookup node
  read cell

def nextOf : α → Option α := heap.field Cell.next

def prevOf : α → Option α := heap.field Cell.prev

def heldOf : α → Option β := heap.field fun cell => some cell.held

def setNext (node target : α) : Option (Heap α β) := do
  let cell ← heap.lookup node
  some (heap.insert node { cell with next := some target })

def setPrev (node target : α) : Option (Heap α β) := do
  let cell ← heap.lookup node
  some (heap.insert node { cell with prev := some target })

/-- The structure that `malloc` returns, with its links not set. -/
def allocate (node : α) (held : β) : Option (Heap α β) :=
  if node ∈ heap then none else some (heap.insert node { held := held, next := none, prev := none })

def free (node : α) : Option (Heap α β) := if node ∈ heap then some (heap.erase node) else none

end Heap

variable {heap middle after : Heap α β} {node target : α} {next prev : α → Option α} {held : β} {cell : Cell α β}

section Field

variable {γ : Type} {read : Cell α β → Option γ}

theorem field_insert :
    Heap.field (heap.insert node cell) read = Function.update (heap.field read) node (read cell) := by
  funext other
  by_cases same : other = node
  · subst same
    rw [Function.update_self, Heap.field, AList.lookup_insert]
    rfl
  · rw [Function.update_of_ne same, Heap.field, AList.lookup_insert_ne same]
    rfl

theorem field_erase : Heap.field (heap.erase node) read = Function.update (heap.field read) node none := by
  funext other
  by_cases same : other = node
  · subst same
    rw [Function.update_self, Heap.field, AList.lookup_erase]
    rfl
  · rw [Function.update_of_ne same, Heap.field, AList.lookup_erase_ne same]
    rfl

theorem field_kept {changed : Cell α β} (lookup : heap.lookup node = some cell) (same : read changed = read cell) :
    Heap.field (heap.insert node changed) read = heap.field read := by
  rw [field_insert, Function.update_eq_self_iff, Heap.field, lookup, same]
  rfl

end Field

theorem setNext_heldOf (written : heap.setNext node target = some after) : after.heldOf = heap.heldOf := by
  obtain ⟨cell, lookup, same⟩ := Option.bind_eq_some_iff.mp written
  cases same
  exact field_kept lookup rfl

theorem setPrev_heldOf (written : heap.setPrev node target = some after) : after.heldOf = heap.heldOf := by
  obtain ⟨cell, lookup, same⟩ := Option.bind_eq_some_iff.mp written
  cases same
  exact field_kept lookup rfl

theorem mem_iff_heldOf : node ∈ heap ↔ (heap.heldOf node).isSome := by
  rw [← AList.lookup_isSome, Heap.heldOf, Heap.field]
  cases heap.lookup node with
  | none => exact Iff.rfl
  | some cell => exact Iff.rfl

theorem mem_congr (same : after.heldOf = heap.heldOf) : node ∈ after ↔ node ∈ heap := by
  rw [mem_iff_heldOf, same, ← mem_iff_heldOf]

/-- The second heap is the first one with these links. -/
structure Relinked (heap after : Heap α β) (next prev : α → Option α) : Prop where
  next : after.nextOf = next
  prev : after.prevOf = prev
  held : after.heldOf = heap.heldOf

theorem Relinked.refl (heap : Heap α β) : Relinked heap heap heap.nextOf heap.prevOf := ⟨rfl, rfl, rfl⟩

theorem Relinked.mem (relinked : Relinked heap after next prev) : node ∈ after ↔ node ∈ heap :=
  mem_congr relinked.held

-- The structures that are alive at the beginning of an operation are alive throughout it.
section Writes

variable (relinked : Relinked heap middle next prev)
include relinked

theorem Relinked.exists_lookup (live : node ∈ heap) : ∃ cell, middle.lookup node = some cell :=
  Option.isSome_iff_exists.mp (AList.lookup_isSome.mpr (relinked.mem.mpr live))

theorem Relinked.setNext (target : α) (live : node ∈ heap) :
    ∃ after, middle.setNext node target = some after ∧
      Relinked heap after (Function.update next node (some target)) prev := by
  obtain ⟨cell, lookup⟩ := relinked.exists_lookup live
  obtain ⟨nextMiddle, prevMiddle, heldMiddle⟩ := relinked
  refine ⟨middle.insert node { cell with next := some target }, ?_, ?_, ?_, ?_⟩
  · rw [Heap.setNext, lookup]
    rfl
  · rw [← nextMiddle]
    exact field_insert
  · rw [← prevMiddle]
    exact field_kept lookup rfl
  · rw [← heldMiddle]
    exact field_kept lookup rfl

theorem Relinked.setPrev (target : α) (live : node ∈ heap) :
    ∃ after, middle.setPrev node target = some after ∧
      Relinked heap after next (Function.update prev node (some target)) := by
  obtain ⟨cell, lookup⟩ := relinked.exists_lookup live
  obtain ⟨nextMiddle, prevMiddle, heldMiddle⟩ := relinked
  refine ⟨middle.insert node { cell with prev := some target }, ?_, ?_, ?_, ?_⟩
  · rw [Heap.setPrev, lookup]
    rfl
  · rw [← nextMiddle]
    exact field_kept lookup rfl
  · rw [← prevMiddle]
    exact field_insert
  · rw [← heldMiddle]
    exact field_kept lookup rfl

end Writes

theorem allocate_links (held : β) (unused : node ∉ heap) :
    ∃ after, heap.allocate node held = some after ∧ after.nextOf = Function.update heap.nextOf node none ∧
      after.prevOf = Function.update heap.prevOf node none ∧
        after.heldOf = Function.update heap.heldOf node (some held) :=
  ⟨heap.insert node { held := held, next := none, prev := none }, if_neg unused, field_insert, field_insert,
    field_insert⟩

theorem free_links (live : node ∈ heap) :
    ∃ after, heap.free node = some after ∧ after.nextOf = Function.update heap.nextOf node none ∧
      after.prevOf = Function.update heap.prevOf node none ∧
        after.heldOf = Function.update heap.heldOf node none :=
  ⟨heap.erase node, if_pos live, field_erase, field_erase, field_erase⟩

end Linked

end Dwadelib
