import Dwadelib.KernelList
import Dwadelib.Linked.Rules

namespace Dwadelib.KernelList

/-! # What the operations do to lists

A heap that holds lists, with the cells of an operation in front, holds other lists after it.
-/

open Circular Linked

variable {β : Type} {heap : Heap β} {head new old prev next list entry : Address} {before behind nodes front back loose : List Address}
  {lists rest : List (Address × List Address)}

theorem initListHead_relinked (live : list ∈ heap) :
    ∃ after, initListHead list heap = some after ∧ Relinked heap after
      (Function.update heap.nextOf list (some list)) (Function.update heap.prevOf list (some list)) := by
  obtain ⟨one, first, relinked⟩ := (Relinked.refl heap).setNext list live
  obtain ⟨two, second, relinked⟩ := relinked.setPrev list live
  refine ⟨two, ?_, relinked⟩
  rw [initListHead, first]
  exact second

theorem internalListAdd_relinked (liveNew : new ∈ heap) (livePrev : prev ∈ heap) (liveNext : next ∈ heap) :
    ∃ after, internalListAdd new prev next heap = some after ∧ Relinked heap after
      (Function.update (Function.update heap.nextOf new (some next)) prev (some new))
      (Function.update (Function.update heap.prevOf next (some new)) new (some prev)) := by
  obtain ⟨one, first, relinked⟩ := (Relinked.refl heap).setPrev new liveNext
  obtain ⟨two, second, relinked⟩ := relinked.setNext next liveNew
  obtain ⟨three, third, relinked⟩ := relinked.setPrev prev liveNew
  obtain ⟨four, fourth, relinked⟩ := relinked.setNext new livePrev
  refine ⟨four, ?_, relinked⟩
  simp only [internalListAdd, first, second, third, fourth, Option.bind_eq_bind, Option.bind_some]

theorem internalListDel_relinked (livePrev : prev ∈ heap) (liveNext : next ∈ heap) :
    ∃ after, internalListDel prev next heap = some after ∧ Relinked heap after
      (Function.update heap.nextOf prev (some next)) (Function.update heap.prevOf next (some prev)) := by
  obtain ⟨one, first, relinked⟩ := (Relinked.refl heap).setPrev prev liveNext
  obtain ⟨two, second, relinked⟩ := relinked.setNext next livePrev
  refine ⟨two, ?_, relinked⟩
  rw [internalListDel, first]
  exact second

theorem initListHead_represents (related : Represents heap { lists := lists, loose := list :: loose }) :
    ∃ after, initListHead list heap = some after ∧ Represents after { lists := (list, []) :: lists, loose := loose } := by
  obtain ⟨after, initialised, relinked⟩ := initListHead_relinked (related.live_loose List.mem_cons_self)
  exact ⟨after, initialised, related.initialise relinked⟩

section Insert

variable (related : Represents heap { lists := (head, nodes) :: rest, loose := new :: loose })
include related

theorem internalListAdd_represents (parts : nodes = before ++ behind) :
    ∃ after, internalListAdd new (before.getLastD head) (behind.headD head) heap = some after ∧
      Represents after { lists := (head, before ++ new :: behind) :: rest, loose := loose } := by
  subst parts
  obtain ⟨after, added, relinked⟩ := internalListAdd_relinked (related.live_loose List.mem_cons_self)
    (related.live left_mem) (related.live right_mem)
  exact ⟨after, added, related.insert relinked⟩

theorem listAdd_represents :
    ∃ after, listAdd new head heap = some after ∧
      Represents after { lists := (head, new :: nodes) :: rest, loose := loose } := by
  obtain ⟨after, added, represents⟩ := internalListAdd_represents related (List.nil_append nodes).symm
  refine ⟨after, ?_, represents⟩
  have first : heap.nextOf head = some (nodes.headD head) := related.circle.forward.first
  rw [listAdd, first]
  exact added

theorem listAddTail_represents :
    ∃ after, listAddTail new head heap = some after ∧
      Represents after { lists := (head, nodes ++ [new]) :: rest, loose := loose } := by
  obtain ⟨after, added, represents⟩ := internalListAdd_represents related (List.append_nil nodes).symm
  refine ⟨after, ?_, represents⟩
  have last : heap.prevOf head = some (nodes.reverse.headD head) := related.circle.backward.first
  rw [headD_reverse] at last
  rw [listAddTail, last]
  exact added

end Insert

/-- An entry and its neighbours, which for a head without entries is the head itself. -/
theorem internalListDelEntry_represents {layout other : Layout Address} (related : Represents heap layout)
    (allowed : layout.unlink entry = some other) :
    ∃ prev next after, heap.prevOf entry = some prev ∧ heap.nextOf entry = some next ∧
      internalListDel prev next heap = some after ∧ Represents after other ∧ ∃ others, other.loose = entry :: others := by
  rcases related.unlinked allowed with ⟨head, before, behind, rest, opened, rfl⟩ | ⟨rest, opened, rfl⟩
  · have left : before.getLastD head ∈ head :: (before ++ entry :: behind) := left_mem
    have right : behind.headD head ∈ head :: (before ++ entry :: behind) := by
      cases behind <;> simp
    obtain ⟨onwards, back⟩ := opened.circle.neighbours
    obtain ⟨after, deleted, relinked⟩ := internalListDel_relinked (opened.live left) (opened.live right)
    exact ⟨_, _, after, back, onwards, deleted, opened.unlink relinked, _, rfl⟩
  · have alone : entry ∈ [entry] := List.mem_singleton_self entry
    have onwards : heap.nextOf entry = some entry := opened.circle.forward
    have back : heap.prevOf entry = some entry := opened.circle.backward
    obtain ⟨after, deleted, relinked⟩ := internalListDel_relinked (opened.live alone) (opened.live alone)
    exact ⟨entry, entry, after, back, onwards, deleted, opened.loosenHead relinked, _, rfl⟩

section Unlink

variable {layout other : Layout Address} (related : Represents heap layout) (allowed : layout.unlink entry = some other)
include related allowed

/-- The poison is written to a cell that is in no list any more. -/
theorem listDel_represents : ∃ after, listDel entry heap = some after ∧ Represents after other := by
  obtain ⟨prev, next, middle, back, onwards, deleted, represents, others, loose⟩ :=
    internalListDelEntry_represents related allowed
  have member : entry ∈ other.loose := loose ▸ List.mem_cons_self
  obtain ⟨one, first, relinked⟩ := (Relinked.refl middle).setNext listPoison1 (represents.live_loose member)
  obtain ⟨two, second, relinked⟩ := relinked.setPrev listPoison2 (represents.live_loose member)
  refine ⟨two, ?_, represents.scribble member relinked fun kept differs => ?_⟩
  · simp only [listDel, back, onwards, deleted, first, second, Option.bind_eq_bind, Option.bind_some]
  · exact ⟨Function.update_of_ne differs _ _, Function.update_of_ne differs _ _⟩

theorem listUnlink_represents : ∃ after, internalListDelEntry entry heap = some after ∧ Represents after other := by
  obtain ⟨prev, next, after, back, onwards, deleted, represents, -⟩ := internalListDelEntry_represents related allowed
  refine ⟨after, ?_, represents⟩
  simp only [internalListDelEntry, back, onwards, deleted, Option.bind_eq_bind, Option.bind_some]

end Unlink

/-- What `old->prev` is when it is read, after the write to the cell behind. -/
theorem listReplace_relinked (liveNew : new ∈ heap) (liveNext : next ∈ heap) (livePrev : prev ∈ heap)
    (onwards : heap.nextOf old = some next) (back : Function.update heap.prevOf next (some new) old = some prev) :
    ∃ after, listReplace old new heap = some after ∧ Relinked heap after
      (Function.update (Function.update heap.nextOf new (some next)) prev (some new))
      (Function.update (Function.update heap.prevOf next (some new)) new (some prev)) := by
  obtain ⟨one, first, relinkedOne⟩ := (Relinked.refl heap).setNext next liveNew
  obtain ⟨two, second, relinkedTwo⟩ := relinkedOne.setPrev new liveNext
  obtain ⟨three, third, relinkedThree⟩ := relinkedTwo.setPrev prev liveNew
  obtain ⟨four, fourth, relinkedFour⟩ := relinkedThree.setNext new livePrev
  have following : one.nextOf new = some next := by rw [relinkedOne.next, Function.update_self]
  have preceding : two.prevOf old = some prev := by rw [relinkedTwo.prev, back]
  have written : three.prevOf new = some prev := by rw [relinkedThree.prev, Function.update_self]
  refine ⟨four, ?_, relinkedFour⟩
  simp only [listReplace, onwards, first, following, second, preceding, third, written, fourth, Option.bind_eq_bind,
    Option.bind_some]

section Replace

variable {layout other : Layout Address} (related : Represents heap layout) (allowed : layout.replace old new = some other)
include related allowed

theorem listReplace_represents : ∃ after, listReplace old new heap = some after ∧ Represents after other := by
  rcases related.replaced allowed with ⟨head, before, behind, rest, loose, opened, rfl⟩ | ⟨nodes, rest, loose, opened, rfl⟩
  · have left : before.getLastD head ∈ head :: (before ++ old :: behind) := left_mem
    have right : behind.headD head ∈ head :: (before ++ old :: behind) := by
      cases behind <;> simp
    obtain ⟨outside, distinct⟩ := List.nodup_cons.mp opened.circle.distinct
    have apart : old ≠ behind.headD head := by
      cases behind with
      | nil => exact fun equal => outside (equal ▸ List.mem_append_right before List.mem_cons_self)
      | cons node behind =>
          have tail := (List.nodup_cons.mp (List.nodup_append.mp distinct).2.1).1
          exact fun equal => tail (equal ▸ List.mem_cons_self)
    obtain ⟨onwards, back⟩ := opened.circle.neighbours
    obtain ⟨after, done, relinked⟩ := listReplace_relinked (opened.live_loose List.mem_cons_self) (opened.live right)
      (opened.live left) onwards (by rw [Function.update_of_ne apart, back])
    exact ⟨after, done, opened.replaceEntry relinked⟩
  · have liveNew : new ∈ heap := opened.live_loose List.mem_cons_self
    by_cases empty : nodes = []
    · -- An empty list: `old->prev` is read after it became `new`.
      subst empty
      have onwards : heap.nextOf old = some old := opened.circle.forward
      have back : Function.update heap.prevOf old (some new) old = some new := Function.update_self ..
      obtain ⟨after, done, relinked⟩ :=
        listReplace_relinked liveNew (opened.live List.mem_cons_self) liveNew onwards back
      refine ⟨after, done, opened.rehead relinked (fun node differs => ?_) fun node differs => ?_⟩
      · rw [List.headD_nil, List.getLastD_nil]
        by_cases same : node = new
        · rw [same, Function.update_self, Function.update_self]
        · rw [Function.update_of_ne same, Function.update_of_ne same, Function.update_of_ne same,
            Function.update_of_ne same]
      · rw [List.headD_nil, List.getLastD_nil]
        by_cases same : node = new
        · rw [same, Function.update_self, Function.update_self]
        · rw [Function.update_of_ne same, Function.update_of_ne differs, Function.update_of_ne same,
            Function.update_of_ne same]
    · have outside : old ∉ nodes := (List.nodup_cons.mp opened.circle.distinct).1
      have firstMember : nodes.headD new ∈ nodes := headD_mem empty
      have lastMember : nodes.getLastD new ∈ nodes := getLastD_mem empty
      have onwards : heap.nextOf old = some (nodes.headD new) := by
        rw [show nodes.headD new = nodes.headD old from headD_congr empty]
        exact opened.circle.forward.first
      have back : heap.prevOf old = some (nodes.getLastD new) := by
        rw [show nodes.getLastD new = nodes.getLastD old from getLastD_congr empty, ← headD_reverse]
        exact opened.circle.backward.first
      have apart : old ≠ nodes.headD new := (ne_of_mem_of_not_mem firstMember outside).symm
      obtain ⟨after, done, relinked⟩ := listReplace_relinked liveNew (opened.live (List.mem_cons_of_mem old firstMember))
        (opened.live (List.mem_cons_of_mem old lastMember)) onwards (by rw [Function.update_of_ne apart, back])
      exact ⟨after, done, opened.rehead relinked (fun _ _ => rfl) fun _ _ => rfl⟩

end Replace

section Questions

variable (related : Represents heap { lists := (head, nodes) :: rest, loose := loose })
include related

theorem listEmpty_represents : listEmpty head heap = some (decide (nodes = [])) := by
  have first : heap.nextOf head = some (nodes.headD head) := related.circle.forward.first
  rw [listEmpty, first]
  cases nodes with
  | nil => simp
  | cons node nodes =>
      have apart : node ≠ head := fun equal =>
        (List.nodup_cons.mp related.circle.distinct).1 (equal ▸ List.mem_cons_self)
      simp [apart]

theorem prevOf_head : heap.prevOf head = some (nodes.getLastD head) := by
  have last : heap.prevOf head = some (nodes.reverse.headD head) := related.circle.backward.first
  rwa [headD_reverse] at last

theorem listEmptyCareful_represents : listEmptyCareful head heap = some (decide (nodes = [])) := by
  have first : heap.nextOf head = some (nodes.headD head) := related.circle.forward.first
  rw [listEmptyCareful, first, prevOf_head related]
  cases nodes with
  | nil => simp
  | cons node nodes =>
      have apart : node ≠ head := fun equal =>
        (List.nodup_cons.mp related.circle.distinct).1 (equal ▸ List.mem_cons_self)
      simp [apart]

theorem listIsSingular_represents : listIsSingular head heap = some (decide (nodes.length = 1)) := by
  have first : heap.nextOf head = some (nodes.headD head) := related.circle.forward.first
  rw [listIsSingular, listEmpty_represents related, first, prevOf_head related]
  cases nodes with
  | nil => rfl
  | cons node nodes =>
      cases nodes with
      | nil => simp
      | cons second nodes =>
          have distinct := (List.nodup_cons.mp related.circle.distinct).2
          have apart : node ≠ (second :: nodes).getLastD head := by
            rw [List.getLastD_cons]
            exact fun equal => (List.nodup_cons.mp distinct).1 (equal ▸ List.getLastD_mem_cons)
          rw [List.getLastD_eq_getLast?] at apart
          simp [apart]

theorem listFirstEntryOrNull_represents : listFirstEntryOrNull head heap = some nodes.head? := by
  have first : heap.nextOf head = some (nodes.headD head) := related.circle.forward.first
  rw [listFirstEntryOrNull, listEmpty_represents related, first]
  cases nodes <;> simp

/-- Only behind the last entry comes the head. -/
theorem listIsLast_represents (inside : entry ∈ nodes) :
    listIsLast entry head heap = some (decide (nodes.getLast? = some entry)) := by
  obtain ⟨before, behind, rfl⟩ := List.append_of_mem inside
  have following : heap.nextOf entry = some (behind.headD head) := related.circle.neighbours.1
  obtain ⟨outside, distinct⟩ := List.nodup_cons.mp related.circle.distinct
  rw [listIsLast, following]
  cases behind with
  | nil => simp
  | cons node behind =>
      have notHead : node ≠ head := fun equal =>
        outside (equal ▸ List.mem_append_right before (List.mem_cons_of_mem entry List.mem_cons_self))
      have notLast : (node :: behind).getLastD entry ≠ entry := by
        have absent := (List.nodup_cons.mp (List.nodup_append.mp distinct).2.1).1
        rw [List.getLastD_cons]
        exact fun equal => absent (equal ▸ List.getLastD_mem_cons)
      have last : (before ++ entry :: node :: behind).getLast? = some ((node :: behind).getLastD entry) := by
        rw [List.getLast?_append_cons, List.getLast?_cons, List.getLastD_eq_getLast?]
      rw [List.getLastD_eq_getLast?] at last notLast
      rw [last]
      simp [notHead, notLast]

theorem listForEach_represents : (listForEach head heap).toOption = some nodes := by
  rw [listForEach, related.walk_next]
  rfl

theorem listForEachPrev_represents : (listForEachPrev head heap).toOption = some nodes.reverse := by
  rw [listForEachPrev, related.walk_prev]
  rfl

end Questions

theorem internalListCutPosition_represents
    (related : Represents heap { lists := (head, front ++ back) :: rest, loose := list :: loose })
    (nonempty : front ≠ []) (last : front.getLastD list = entry) :
    ∃ after, internalListCutPosition list head entry heap = some after ∧
      Represents after { lists := (list, front) :: (head, back) :: rest, loose := loose } := by
  subst last
  have fresh : list ∈ heap := related.live_loose List.mem_cons_self
  have first : front.headD list ∈ head :: (front ++ back) :=
    List.mem_cons_of_mem head (List.mem_append_left back (headD_mem nonempty))
  have last : front.getLastD list ∈ head :: (front ++ back) :=
    List.mem_cons_of_mem head (List.mem_append_left back (getLastD_mem nonempty))
  have newFirst : back.headD head ∈ head :: (front ++ back) := right_mem
  have onwards : heap.nextOf (front.getLastD list) = some (back.headD head) := by
    rw [show front.getLastD list = front.getLastD head from getLastD_congr nonempty]
    exact related.circle.forward.back.first
  have begun : heap.nextOf head = some (front.headD list) := by
    rw [show front.headD list = (front ++ back).headD head from (headD_append nonempty).symm]
    exact related.circle.forward.first
  obtain ⟨one, write, relinkedOne⟩ := (Relinked.refl heap).setNext (front.headD list) fresh
  obtain ⟨two, write₂, relinked⟩ := relinkedOne.setPrev list (related.live first)
  obtain ⟨three, write₃, relinked⟩ := relinked.setPrev (front.getLastD list) fresh
  obtain ⟨four, write₄, relinked⟩ := relinked.setNext list (related.live last)
  obtain ⟨five, write₅, relinked⟩ := relinked.setNext (back.headD head) (related.live List.mem_cons_self)
  obtain ⟨six, write₆, relinked⟩ := relinked.setPrev head (related.live newFirst)
  have written : one.nextOf list = some (front.headD list) := by rw [relinkedOne.next, Function.update_self]
  refine ⟨six, ?_, related.cut nonempty relinked⟩
  simp only [internalListCutPosition, onwards, begun, write, written, write₂, write₃, write₄, write₅, write₆,
    Option.bind_eq_bind, Option.bind_some]

theorem internalListSplice_represents
    (related : Represents heap { lists := (list, nodes) :: (head, before ++ behind) :: rest, loose := loose })
    (nonempty : nodes ≠ []) :
    ∃ after, internalListSplice list (before.getLastD head) (behind.headD head) heap = some after ∧
      Represents after { lists := (head, before ++ (nodes ++ behind)) :: rest, loose := list :: loose } := by
  have first : nodes.headD list ∈ list :: nodes := List.mem_cons_of_mem list (headD_mem nonempty)
  have last : nodes.getLastD list ∈ list :: nodes := List.mem_cons_of_mem list (getLastD_mem nonempty)
  have onwards : heap.nextOf list = some (nodes.headD list) := related.circle.forward.first
  have back : heap.prevOf list = some (nodes.getLastD list) := by
    rw [← headD_reverse]
    exact related.circle.backward.first
  have swapped : Represents heap { lists := (head, before ++ behind) :: (list, nodes) :: rest, loose := loose } :=
    related.rearrange ((cells_perm (List.Perm.swap ..)).append_right loose) fun ring member =>
      (List.Perm.swap ..).mem_iff.mp member
  obtain ⟨one, write, relinked⟩ := (Relinked.refl heap).setPrev (before.getLastD head) (related.live first)
  obtain ⟨two, write₂, relinked⟩ := relinked.setNext (nodes.headD list) (swapped.live left_mem)
  obtain ⟨three, write₃, relinked⟩ := relinked.setNext (behind.headD head) (related.live last)
  obtain ⟨four, write₄, relinked⟩ := relinked.setPrev (nodes.getLastD list) (swapped.live right_mem)
  refine ⟨four, ?_, related.splice nonempty relinked⟩
  simp only [internalListSplice, onwards, back, write, write₂, write₃, write₄, Option.bind_eq_bind, Option.bind_some]

end Dwadelib.KernelList
