import Dwadelib.Ipc.NodeList
import Dwadelib.Linked.Rules

namespace Dwadelib.Ipc.NodeList

/-! # What the operations do to lists

Nodes that are in no list and whose links were set to null stay so until they are used again, whatever is done
to other nodes.
-/

open Circular Linked

variable {heap after : Heap} {head item place list node prev next : Address} {before behind nodes : List Address}
  {rest : List (Address × List Address)} {loose : List Address} {layout other : Layout Address}
  {nextLinks prevLinks : Address → Option Address}

/-- Both links are null. -/
def Unlinked (heap : Heap) (node : Address) : Prop := heap.nextOf node = some null ∧ heap.prevOf node = some null

/-- What is done to an item leaves the other nodes without links as they are. -/
structure Spares (heap after : Heap) (item : Address) : Prop where
  held : after.heldOf = heap.heldOf
  unlinked : ∀ node, node ≠ item → Unlinked heap node → Unlinked after node

/-- The links of what is in a list are not null. -/
theorem linked_of_mem (related : Represents heap layout) (nowhere : null ∉ heap)
    (member : node ∈ Circular.cells layout.lists) :
    ∃ next prev, heap.nextOf node = some next ∧ heap.prevOf node = some prev ∧ next ≠ null ∧ prev ≠ null := by
  obtain ⟨ring, listed, inside⟩ := List.mem_flatMap.mp member
  have circle := related.rings ring listed
  obtain ⟨next, nextInside, onwards, -⟩ := circle.inverse node inside
  obtain ⟨prev, prevInside, back, -⟩ := circle.inverse_prev node inside
  have alive : ∀ other ∈ ring.1 :: ring.2, other ≠ null := by
    intro other member equal
    refine nowhere ((related.alive null).mpr (List.mem_append_left _ (List.mem_flatMap.mpr ⟨ring, listed, ?_⟩)))
    exact equal ▸ member
  exact ⟨next, prev, onwards, back, alive next nextInside, alive prev prevInside⟩

theorem ne_of_unlinked (related : Represents heap layout) (nowhere : null ∉ heap)
    (member : place ∈ Circular.cells layout.lists) (unlinked : Unlinked heap node) : node ≠ place := by
  rintro rfl
  obtain ⟨next, prev, onwards, -, linked, -⟩ := linked_of_mem related nowhere member
  exact linked (Option.some.inj (onwards.symm.trans unlinked.1))

theorem listInitialize_relinked (live : list ∈ heap) :
    ∃ after, listInitialize list heap = some after ∧ Relinked heap after
      (Function.update heap.nextOf list (some list)) (Function.update heap.prevOf list (some list)) := by
  obtain ⟨one, first, relinked⟩ := (Relinked.refl heap).setNext list live
  obtain ⟨two, second, relinked⟩ := relinked.setPrev list live
  refine ⟨two, ?_, relinked⟩
  rw [listInitialize, first]
  exact second

theorem listClearNode_relinked (live : item ∈ heap) :
    ∃ after, listClearNode item heap = some after ∧ Relinked heap after
      (Function.update heap.nextOf item (some null)) (Function.update heap.prevOf item (some null)) := by
  obtain ⟨one, first, relinked⟩ := (Relinked.refl heap).setNext null live
  obtain ⟨two, second, relinked⟩ := relinked.setPrev null live
  refine ⟨two, ?_, relinked⟩
  rw [listClearNode, first]
  exact second

theorem listAddHead_relinked (liveItem : item ∈ heap) (liveList : list ∈ heap) (liveNext : next ∈ heap)
    (onwards : heap.nextOf list = some next) (apart : list ≠ item) (apartNext : next ≠ item) :
    ∃ after, listAddHead list item heap = some after ∧ Relinked heap after
      (Function.update (Function.update heap.nextOf item (some next)) list (some item))
      (Function.update (Function.update heap.prevOf next (some item)) item (some list)) := by
  obtain ⟨one, first, relinked⟩ := (Relinked.refl heap).setNext next liveItem
  obtain ⟨two, second, relinked⟩ := relinked.setPrev list liveItem
  have again : two.nextOf list = some next := by rw [relinked.next, Function.update_of_ne apart, onwards]
  obtain ⟨three, third, relinked⟩ := relinked.setPrev item liveNext
  obtain ⟨four, fourth, relinked⟩ := relinked.setNext item liveList
  rw [Function.update_comm apartNext.symm] at relinked
  refine ⟨four, ?_, relinked⟩
  simp only [listAddHead, onwards, first, second, again, third, fourth, Option.bind_eq_bind, Option.bind_some]

theorem listAddTail_relinked (liveItem : item ∈ heap) (liveList : list ∈ heap) (livePrev : prev ∈ heap)
    (back : heap.prevOf list = some prev) (apart : list ≠ item) :
    ∃ after, listAddTail list item heap = some after ∧ Relinked heap after
      (Function.update (Function.update heap.nextOf item (some list)) prev (some item))
      (Function.update (Function.update heap.prevOf list (some item)) item (some prev)) := by
  obtain ⟨one, first, relinked⟩ := (Relinked.refl heap).setPrev prev liveItem
  obtain ⟨two, second, relinked⟩ := relinked.setNext list liveItem
  have again : two.prevOf list = some prev := by rw [relinked.prev, Function.update_of_ne apart, back]
  obtain ⟨three, third, relinked⟩ := relinked.setNext item livePrev
  obtain ⟨four, fourth, relinked⟩ := relinked.setPrev item liveList
  rw [Function.update_comm apart.symm] at relinked
  refine ⟨four, ?_, relinked⟩
  simp only [listAddTail, back, first, second, again, third, fourth, Option.bind_eq_bind, Option.bind_some]

/-- The neighbours of the item are linked to each other; between the two writes its own links are read again, which
the first one has not changed unless it is its own list. -/
theorem unlink_relinked (livePrev : prev ∈ heap) (liveNext : next ∈ heap) (onwards : heap.nextOf item = some next)
    (back : heap.prevOf item = some prev) :
    ∃ one two, heap.setPrev next prev = some one ∧ one.prevOf item = some prev ∧ one.nextOf item = some next ∧
      one.setNext prev next = some two ∧ Relinked heap two
        (Function.update heap.nextOf prev (some next)) (Function.update heap.prevOf next (some prev)) := by
  obtain ⟨one, first, relinkedOne⟩ := (Relinked.refl heap).setPrev prev liveNext
  obtain ⟨two, second, relinked⟩ := relinkedOne.setNext next livePrev
  refine ⟨one, two, first, ?_, by rw [relinkedOne.next, onwards], second, relinked⟩
  rw [relinkedOne.prev]
  by_cases same : item = next
  · rw [same, Function.update_self]
  · rw [Function.update_of_ne same, back]

theorem spares_of_relinked (relinked : Relinked heap after nextLinks prevLinks)
    (same : ∀ node, node ≠ item → Unlinked heap node →
      nextLinks node = heap.nextOf node ∧ prevLinks node = heap.prevOf node) : Spares heap after item := by
  refine ⟨relinked.held, fun node differs unlinked => ?_⟩
  obtain ⟨onwards, back⟩ := same node differs unlinked
  rw [Unlinked, relinked.next, relinked.prev, onwards, back]
  exact unlinked

theorem listInitialize_does (related : Represents heap layout) (allowed : layout.initialise list = some other) :
    ∃ after, listInitialize list heap = some after ∧ Represents after other ∧ Spares heap after list := by
  obtain ⟨lists, loose, opened, rfl⟩ := related.initialised allowed
  obtain ⟨after, initialised, relinked⟩ := listInitialize_relinked (opened.live_loose List.mem_cons_self)
  refine ⟨after, initialised, opened.initialise relinked, spares_of_relinked relinked fun node differs _ => ?_⟩
  exact ⟨Function.update_of_ne differs _ _, Function.update_of_ne differs _ _⟩

/-- A node in no list gets null links. -/
theorem listClearNode_does (related : Represents heap layout) (member : item ∈ layout.loose) :
    ∃ after, listClearNode item heap = some after ∧ Represents after layout ∧ Spares heap after item ∧
      Unlinked after item := by
  obtain ⟨after, cleared, relinked⟩ := listClearNode_relinked (related.live_loose member)
  have kept : ∀ node, node ≠ item → Function.update heap.nextOf item (some null) node = heap.nextOf node ∧
      Function.update heap.prevOf item (some null) node = heap.prevOf node := fun node differs =>
    ⟨Function.update_of_ne differs _ _, Function.update_of_ne differs _ _⟩
  refine ⟨after, cleared, related.scribble member relinked kept,
    spares_of_relinked relinked fun node differs _ => kept node differs, ?_, ?_⟩
  · rw [relinked.next, Function.update_self]
  · rw [relinked.prev, Function.update_self]

section Insert

variable (opened : Represents heap { lists := (head, before ++ behind) :: rest, loose := item :: loose })
  (nowhere : null ∉ heap)
include opened nowhere

theorem spares_insert
    (relinked : Relinked heap after
      (Function.update (Function.update heap.nextOf item (some (behind.headD head))) (before.getLastD head) (some item))
      (Function.update (Function.update heap.prevOf (behind.headD head) (some item)) item
        (some (before.getLastD head)))) : Spares heap after item := by
  have left : before.getLastD head ∈ Circular.cells ((head, before ++ behind) :: rest) :=
    List.mem_append_left _ left_mem
  have right : behind.headD head ∈ Circular.cells ((head, before ++ behind) :: rest) :=
    List.mem_append_left _ right_mem
  refine spares_of_relinked relinked fun node differs unlinked => ?_
  have notLeft := ne_of_unlinked opened nowhere left unlinked
  have notRight := ne_of_unlinked opened nowhere right unlinked
  exact ⟨by rw [Function.update_of_ne notLeft, Function.update_of_ne differs],
    by rw [Function.update_of_ne differs, Function.update_of_ne notRight]⟩

omit nowhere in
/-- The item is none of the nodes it comes between. -/
theorem insert_apart : before.getLastD head ≠ item ∧ behind.headD head ≠ item := by
  have outside := opened.loose_outside List.mem_cons_self
  have left : before.getLastD head ∈ Circular.cells ((head, before ++ behind) :: rest) :=
    List.mem_append_left _ left_mem
  have right : behind.headD head ∈ Circular.cells ((head, before ++ behind) :: rest) :=
    List.mem_append_left _ right_mem
  exact ⟨ne_of_mem_of_not_mem left outside, ne_of_mem_of_not_mem right outside⟩

end Insert

theorem listAddHead_does (related : Represents heap layout) (nowhere : null ∉ heap)
    (allowed : layout.insertBehind item place = some other) :
    ∃ after, listAddHead place item heap = some after ∧ Represents after other ∧ Spares heap after item := by
  obtain ⟨head, before, behind, rest, loose, opened, rfl, rfl⟩ := related.insertedBehind allowed
  obtain ⟨apart, apartNext⟩ := insert_apart opened
  obtain ⟨after, added, relinked⟩ := listAddHead_relinked (opened.live_loose List.mem_cons_self)
    (opened.live left_mem) (opened.live right_mem) opened.circle.between.1 apart apartNext
  exact ⟨after, added, opened.insert relinked, spares_insert opened nowhere relinked⟩

theorem listAddTail_does (related : Represents heap layout) (nowhere : null ∉ heap)
    (allowed : layout.insertBefore item place = some other) :
    ∃ after, listAddTail place item heap = some after ∧ Represents after other ∧ Spares heap after item := by
  obtain ⟨head, before, behind, rest, loose, opened, rfl, rfl⟩ := related.insertedBefore allowed
  obtain ⟨-, apart⟩ := insert_apart opened
  obtain ⟨after, added, relinked⟩ := listAddTail_relinked (opened.live_loose List.mem_cons_self)
    (opened.live right_mem) (opened.live left_mem) opened.circle.between.2 apart
  exact ⟨after, added, opened.insert relinked, spares_insert opened nowhere relinked⟩

/-- The neighbours of an entry, or of a head without entries, are linked to each other. -/
theorem unlink_does (related : Represents heap layout) (nowhere : null ∉ heap) (allowed : layout.unlink item = some other) :
    ∃ next prev one two, heap.nextOf item = some next ∧ heap.prevOf item = some prev ∧
      heap.setPrev next prev = some one ∧ one.prevOf item = some prev ∧ one.nextOf item = some next ∧
      one.setNext prev next = some two ∧ Represents two other ∧ Spares heap two item ∧ item ∈ other.loose := by
  rcases related.unlinked allowed with ⟨head, before, behind, rest, opened, rfl⟩ | ⟨rest, opened, rfl⟩
  · have left : before.getLastD head ∈ head :: (before ++ item :: behind) := left_mem
    have right : behind.headD head ∈ head :: (before ++ item :: behind) := by
      cases behind <;> simp
    obtain ⟨onwards, back⟩ := opened.circle.neighbours
    obtain ⟨one, two, first, backAgain, onwardsAgain, second, relinked⟩ :=
      unlink_relinked (opened.live left) (opened.live right) onwards back
    refine ⟨_, _, one, two, onwards, back, first, backAgain, onwardsAgain, second, opened.unlink relinked,
      spares_of_relinked relinked fun node _ unlinked => ?_, List.mem_cons_self⟩
    exact ⟨Function.update_of_ne (ne_of_unlinked opened nowhere (List.mem_append_left _ left) unlinked) _ _,
      Function.update_of_ne (ne_of_unlinked opened nowhere (List.mem_append_left _ right) unlinked) _ _⟩
  · have alone : item ∈ [item] := List.mem_singleton_self item
    have onwards : heap.nextOf item = some item := opened.circle.forward
    have back : heap.prevOf item = some item := opened.circle.backward
    obtain ⟨one, two, first, backAgain, onwardsAgain, second, relinked⟩ :=
      unlink_relinked (opened.live alone) (opened.live alone) onwards back
    refine ⟨_, _, one, two, onwards, back, first, backAgain, onwardsAgain, second, opened.loosenHead relinked,
      spares_of_relinked relinked fun node differs _ => ?_, List.mem_cons_self⟩
    exact ⟨Function.update_of_ne differs _ _, Function.update_of_ne differs _ _⟩

theorem listDelete_does (related : Represents heap layout) (nowhere : null ∉ heap)
    (allowed : layout.unlink item = some other) :
    ∃ after, listDelete item heap = some after ∧ Represents after other ∧ Spares heap after item ∧
      Unlinked after item := by
  obtain ⟨next, prev, one, two, onwards, back, first, backAgain, onwardsAgain, second, represents, spares, loose⟩ :=
    unlink_does related nowhere allowed
  obtain ⟨after, cleared, kept, spared, unlinked⟩ := listClearNode_does represents loose
  refine ⟨after, ?_, kept, ⟨spared.held.trans spares.held, fun node differs before => ?_⟩, unlinked⟩
  · simp only [listDelete, onwards, back, first, backAgain, onwardsAgain, second, cleared, Option.bind_eq_bind,
      Option.bind_some]
  · exact spared.unlinked node differs (spares.unlinked node differs before)

end Dwadelib.Ipc.NodeList
