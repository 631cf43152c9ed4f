import Dwadelib.Base.ListMsg

namespace Dwadelib.ListMsg

/-! # What the operations do to the links

A heap is seen through the links and the commands of its messages. One lemma for each operation says
what it leaves of them.
-/

open Circular Linked

variable {heap : Heap} {head new prev next node tmp here : Address} {nodes freed met : List Address}
  {data : Int} {rounds : Nat} {follow : Address → Option Address}

theorem listHeadInit_links (live : head ∈ heap) :
    ∃ after, listHeadInit head heap = some after ∧ Relinked heap after
      (Function.update heap.nextOf head (some head)) (Function.update heap.prevOf head (some head)) := by
  obtain ⟨middle, first, forward⟩ := (Relinked.refl heap).setNext head live
  obtain ⟨after, second, both⟩ := forward.setPrev head live
  refine ⟨after, ?_, both⟩
  rw [listHeadInit, first]
  exact second

theorem listDel_links (livePrev : prev ∈ heap) (liveNext : next ∈ heap) :
    ∃ after, listDel prev next heap = some after ∧ Relinked heap after
      (Function.update heap.nextOf prev (some next)) (Function.update heap.prevOf next (some prev)) := by
  obtain ⟨middle, first, forward⟩ := (Relinked.refl heap).setNext next livePrev
  obtain ⟨after, second, both⟩ := forward.setPrev prev liveNext
  refine ⟨after, ?_, both⟩
  rw [listDel, first]
  exact second

theorem listAdd_links (liveNew : new ∈ heap) (livePrev : prev ∈ heap) (liveNext : next ∈ heap) :
    ∃ after, listAdd new prev next heap = some after ∧ Relinked heap after
      (Function.update (Function.update heap.nextOf new (some next)) prev (some new))
      (Function.update (Function.update heap.prevOf next (some new)) new (some prev)) := by
  obtain ⟨one, first, links⟩ := (Relinked.refl heap).setPrev new liveNext
  obtain ⟨two, second, links⟩ := links.setNext next liveNew
  obtain ⟨three, third, links⟩ := links.setPrev prev liveNew
  obtain ⟨four, fourth, links⟩ := links.setNext new livePrev
  refine ⟨four, ?_, links⟩
  simp only [listAdd, first, second, third, fourth, Option.bind_eq_bind, Option.bind_some]

section Circle

variable (circle : Circle heap.nextOf heap.prevOf head nodes) (live : ∀ node ∈ head :: nodes, node ∈ heap)
include circle live

theorem listAdd_circle {before behind : List Address} (parts : nodes = before ++ behind) (fresh : new ∉ head :: nodes)
    (liveNew : new ∈ heap) :
    ∃ after, listAdd new (before.getLastD head) (behind.headD head) heap = some after ∧
      Circle after.nextOf after.prevOf head (before ++ new :: behind) ∧ after.heldOf = heap.heldOf := by
  subst parts
  have left : before.getLastD head ∈ head :: (before ++ behind) :=
    List.mem_append_left behind List.getLastD_mem_cons
  have right : behind.headD head ∈ head :: (before ++ behind) := by
    cases behind <;> simp
  have apart : behind.headD head ≠ new := ne_of_mem_of_not_mem right fresh
  obtain ⟨after, added, next_after, prev_after, cmd_after⟩ := listAdd_links liveNew (live _ left) (live _ right)
  refine ⟨after, added, circle.insert fresh ?_ ?_, cmd_after⟩
  · intro node
    rw [next_after, Function.update_apply, Function.update_apply]
  · intro node
    rw [prev_after, Function.update_apply, Function.update_apply]
    by_cases isNew : node = new
    · subst isNew
      rw [if_pos rfl, if_neg apart.symm, if_pos rfl]
    · rw [if_neg isNew, if_neg isNew]

theorem listAddHead_circle (fresh : new ∉ head :: nodes) (liveNew : new ∈ heap) :
    ∃ after, listAddHead new head heap = some after ∧
      Circle after.nextOf after.prevOf head (new :: nodes) ∧ after.heldOf = heap.heldOf := by
  obtain ⟨after, added, inserted, commands⟩ := listAdd_circle circle live (List.nil_append nodes).symm fresh liveNew
  refine ⟨after, ?_, inserted, commands⟩
  rw [listAddHead, circle.forward.first]
  exact added

theorem listAddTail_circle (fresh : new ∉ head :: nodes) (liveNew : new ∈ heap) :
    ∃ after, listAddTail new head heap = some after ∧
      Circle after.nextOf after.prevOf head (nodes ++ [new]) ∧ after.heldOf = heap.heldOf := by
  obtain ⟨after, added, inserted, commands⟩ := listAdd_circle circle live (List.append_nil nodes).symm fresh liveNew
  refine ⟨after, ?_, inserted, commands⟩
  have last := circle.backward.first
  rw [headD_reverse] at last
  rw [listAddTail, last]
  exact added

theorem listDel_circle {before behind : List Address} (parts : nodes = before ++ node :: behind) :
    ∃ after, listDel (before.getLastD head) (behind.headD head) heap = some after ∧
      Circle after.nextOf after.prevOf head (before ++ behind) ∧ after.heldOf = heap.heldOf := by
  subst parts
  have left : before.getLastD head ∈ head :: (before ++ node :: behind) :=
    List.mem_append_left (node :: behind) List.getLastD_mem_cons
  have right : behind.headD head ∈ head :: (before ++ node :: behind) := by
    cases behind <;> simp
  obtain ⟨after, unlinked, next_after, prev_after, cmd_after⟩ := listDel_links (live _ left) (live _ right)
  refine ⟨after, unlinked, circle.remove ?_ ?_, cmd_after⟩
  · intro kept
    rw [next_after, Function.update_apply]
  · intro kept
    rw [prev_after, Function.update_apply]

omit live in
theorem listEmpty_circle : listEmpty head heap = some nodes.isEmpty := by
  rw [listEmpty, circle.forward.first]
  cases nodes with
  | nil => simp
  | cons node nodes =>
      have apart : node ≠ head := fun equal =>
        (List.nodup_cons.mp circle.distinct).1 (equal ▸ List.mem_cons_self)
      simp [apart]

theorem queueOut_empty (none : nodes = []) : queueOut head heap = some (heap, Option.none) := by
  subst none
  rw [queueOut, listEmpty_circle circle]
  rfl

theorem queueOut_circle {behind : List Address} (parts : nodes = node :: behind) :
    ∃ after, queueOut head heap = some (after, some node) ∧ Circle after.nextOf after.prevOf head behind ∧
      after.heldOf = heap.heldOf := by
  have middle : nodes = [] ++ node :: behind := parts
  obtain ⟨after, unlinked, shorter, commands⟩ := listDel_circle circle live middle
  have deleted : listDel head (behind.headD head) heap = some after := unlinked
  have empty := listEmpty_circle circle
  subst middle
  have first : heap.nextOf head = some node := circle.forward.first
  have second : heap.nextOf node = some (behind.headD head) := circle.neighbours.1
  refine ⟨after, ?_, shorter, commands⟩
  rw [queueOut, empty, first]
  simp only [Option.bind_eq_bind, Option.bind_some, List.nil_append, List.isEmpty_cons, Bool.false_eq_true, if_false,
    second, deleted]

end Circle

/-- Along either link all nodes are met, and no other ones. -/
theorem walk_circle (circle : Circle heap.nextOf heap.prevOf head nodes)
    (live : ∀ node ∈ head :: nodes, node ∈ heap) :
    walk head heap.nextOf heap = .returned nodes ∧ walk head heap.prevOf heap = .returned nodes.reverse :=
  ⟨walk_round_trip circle.forward circle.distinct live,
    walk_round_trip circle.backward circle.turn.distinct (forall_mem_reverse live)⟩

theorem find_path (path : Path heap.nextOf here nodes head) (outside : head ∉ nodes)
    (live : ∀ node ∈ nodes, node ∈ heap) (begun : heap.nextOf here = some tmp) (enough : nodes.length < rounds) :
    whileLoop (findRound head data heap) rounds tmp =
      .returned (nodes.find? fun node => heap.heldOf node = some data) := by
  induction nodes generalizing here tmp rounds with
  | nil =>
      obtain ⟨rounds, rfl⟩ : ∃ fewer, rounds = fewer + 1 := ⟨rounds - 1, by omega⟩
      cases begun.symm.trans path
      exact whileLoop_stop (by simp [findRound])
  | cons node nodes ih =>
      obtain ⟨rounds, rfl⟩ : ∃ fewer, rounds = fewer + 1 := ⟨rounds - 1, by omega⟩
      obtain ⟨first, later⟩ := path
      cases begun.symm.trans first
      obtain ⟨apart, absent⟩ := not_or.mp (List.mem_cons.not.mp outside)
      obtain ⟨liveNode, liveLater⟩ := List.forall_mem_cons.mp live
      obtain ⟨cmd, command⟩ := Option.isSome_iff_exists.mp (mem_iff_heldOf.mp liveNode)
      by_cases found : cmd = data
      · have round : findRound head data heap node = .returned (.stop (some node)) := by
          simp [findRound, Ne.symm apart, command, found]
        have here : decide (heap.heldOf node = some data) = true := by simp [command, found]
        rw [whileLoop_stop round, List.find?_cons, here]
      · have following := later.first
        have round : findRound head data heap node = .returned (.next (nodes.headD head)) := by
          simp [findRound, Ne.symm apart, command, found, following]
        have other : decide (heap.heldOf node = some data) = false := by simp [command, found]
        rw [List.length_cons] at enough
        rw [whileLoop_next round, List.find?_cons, other, ih later absent liveLater following (by omega)]

theorem nodeFind_circle (circle : Circle heap.nextOf heap.prevOf head nodes)
    (live : ∀ node ∈ head :: nodes, node ∈ heap) :
    nodeFind head data heap = .returned (nodes.find? fun node => heap.heldOf node = some data) := by
  have outside := (List.nodup_cons.mp circle.distinct).1
  have first := circle.forward.first
  rw [nodeFind, first, Outcome.ofOption_some, Outcome.returned_bind]
  exact find_path circle.forward outside (List.forall_mem_cons.mp live).2 first (length_lt_rounds circle.distinct live)

/-- Freeing a message that is not linked leaves a circle as it is. -/
theorem free_circle (circle : Circle heap.nextOf heap.prevOf head nodes) (outside : node ∉ head :: nodes)
    (live : node ∈ heap) :
    ∃ after, heap.free node = some after ∧ Circle after.nextOf after.prevOf head nodes ∧
      after.heldOf = Function.update heap.heldOf node none := by
  obtain ⟨after, freed, next_after, prev_after, commands⟩ := free_links live
  refine ⟨after, freed, circle.congr fun linked member => ?_, commands⟩
  have apart : linked ≠ node := ne_of_mem_of_not_mem member outside
  rw [next_after, prev_after, Function.update_of_ne apart, Function.update_of_ne apart]
  exact ⟨rfl, rfl⟩

theorem nodeDel_missing (circle : Circle heap.nextOf heap.prevOf head nodes)
    (live : ∀ node ∈ head :: nodes, node ∈ heap)
    (missing : (nodes.find? fun node => heap.heldOf node = some data) = none) :
    nodeDel head data heap = .returned (heap, []) := by
  rw [nodeDel, nodeFind_circle circle live, missing]
  rfl

/-- The first message with the command is taken out and freed. -/
theorem nodeDel_circle (circle : Circle heap.nextOf heap.prevOf head nodes)
    (live : ∀ node ∈ head :: nodes, node ∈ heap)
    (found : (nodes.find? fun node => heap.heldOf node = some data) = some node) :
    ∃ after, nodeDel head data heap = .returned (after, [node]) ∧
      Circle after.nextOf after.prevOf head (nodes.erase node) ∧
        after.heldOf = Function.update heap.heldOf node none := by
  have search : nodeFind head data heap = _ := nodeFind_circle circle live
  obtain ⟨-, before, behind, rfl, -⟩ := List.find?_eq_some_iff_append.mp found
  obtain ⟨next_node, prev_node⟩ := circle.neighbours
  obtain ⟨middle, unlinked, shorter, cmd_middle⟩ := listDel_circle circle live rfl
  have distinct := List.nodup_middle.mp (List.nodup_cons.mp circle.distinct).2
  have absent : node ∉ before ++ behind := (List.nodup_cons.mp distinct).1
  have apart : node ≠ head := fun equal =>
    (List.nodup_cons.mp circle.distinct).1 (equal ▸ List.mem_append_right before List.mem_cons_self)
  have liveMiddle : node ∈ middle :=
    (mem_congr cmd_middle).mpr (live node (List.mem_cons_of_mem _ (List.mem_append_right before List.mem_cons_self)))
  have outside : node ∉ head :: (before ++ behind) := by
    rw [List.mem_cons, not_or]
    exact ⟨apart, absent⟩
  obtain ⟨after, freed, circle_after, commands⟩ := free_circle shorter outside liveMiddle
  have erased : (before ++ node :: behind).erase node = before ++ behind := by
    rw [List.erase_append_right _ (fun member => absent (List.mem_append_left behind member)), List.erase_cons_head]
  refine ⟨after, ?_, ?_, ?_⟩
  · rw [nodeDel, search, found]
    simp only [Outcome.returned_bind, prev_node, next_node, Outcome.ofOption_some, unlinked, freed, Outcome.pure_eq]
  · rw [erased]
    exact circle_after
  · rw [commands, cmd_middle]

/-- The messages on the way back to the head are freed, each once. The links are those from before the
first one was freed. -/
theorem destory_path (path : Path follow here nodes head) (same : ∀ node ∈ nodes, heap.prevOf node = follow node)
    (distinct : (head :: nodes).Nodup) (live : ∀ node ∈ head :: nodes, node ∈ heap) (begun : follow here = some tmp)
    (enough : nodes.length < rounds) :
    ∃ after, whileLoop (destoryRound head) rounds { tmp := tmp, heap := heap, freed := freed } =
        .returned (after, freed ++ nodes) ∧
      Circle after.nextOf after.prevOf head [] ∧
        after.heldOf = fun node => if node ∈ nodes then none else heap.heldOf node := by
  induction nodes generalizing here tmp heap freed rounds with
  | nil =>
      obtain ⟨rounds, rfl⟩ : ∃ fewer, rounds = fewer + 1 := ⟨rounds - 1, by omega⟩
      cases begun.symm.trans path
      obtain ⟨after, initialised, next_after, prev_after, commands⟩ := listHeadInit_links (live head List.mem_cons_self)
      refine ⟨after, ?_, Circle.empty ?_ ?_, ?_⟩
      · rw [List.append_nil]
        refine whileLoop_stop ?_
        simp [destoryRound, initialised]
      · rw [next_after, Function.update_self]
      · rw [prev_after, Function.update_self]
      · rw [commands]
        funext node
        simp
  | cons node nodes ih =>
      obtain ⟨rounds, rfl⟩ : ∃ fewer, rounds = fewer + 1 := ⟨rounds - 1, by omega⟩
      obtain ⟨first, later⟩ := path
      cases begun.symm.trans first
      obtain ⟨prev_node, sameLater⟩ := List.forall_mem_cons.mp same
      have following := later.first
      have moved := distinct.perm (List.Perm.swap node head nodes)
      obtain ⟨outside, distinctLater⟩ := List.nodup_cons.mp moved
      obtain ⟨middle, free_node, -, prev_middle, cmd_middle⟩ :=
        free_links (live node (List.mem_cons_of_mem _ List.mem_cons_self))
      have kept : ∀ other ∈ head :: nodes, other ≠ node := fun other member => ne_of_mem_of_not_mem member outside
      have sameMiddle : ∀ other ∈ nodes, middle.prevOf other = follow other := by
        intro other member
        rw [prev_middle, Function.update_of_ne (kept other (List.mem_cons_of_mem _ member))]
        exact sameLater other member
      have liveMiddle : ∀ other ∈ head :: nodes, other ∈ middle := by
        intro other member
        rw [mem_iff_heldOf, cmd_middle, Function.update_of_ne (kept other member), ← mem_iff_heldOf]
        refine live other ?_
        rcases List.mem_cons.mp member with rfl | inside
        · exact List.mem_cons_self
        · exact List.mem_cons_of_mem _ (List.mem_cons_of_mem _ inside)
      have round : destoryRound head { tmp := node, heap := heap, freed := freed } =
          .returned (.next { tmp := nodes.headD head, heap := middle, freed := freed ++ [node] }) := by
        simp [destoryRound, (kept head List.mem_cons_self).symm, prev_node, following, free_node]
      rw [List.length_cons] at enough
      obtain ⟨after, returned, circle, commands⟩ :=
        ih later sameMiddle distinctLater liveMiddle following (show nodes.length < rounds by omega)
      refine ⟨after, ?_, circle, ?_⟩
      · rw [whileLoop_next round, returned, List.append_assoc, List.singleton_append]
      · rw [commands, cmd_middle]
        funext other
        by_cases inside : other ∈ nodes
        · rw [if_pos inside, if_pos (List.mem_cons_of_mem _ inside)]
        · rw [if_neg inside, Function.update_apply]
          simp only [List.mem_cons, inside, or_false]

theorem destoryList_path (path : Path heap.prevOf head nodes head) (distinct : (head :: nodes).Nodup)
    (live : ∀ node ∈ head :: nodes, node ∈ heap) :
    ∃ after, destoryList head heap = .returned (after, nodes) ∧ Circle after.nextOf after.prevOf head [] ∧
      after.heldOf = fun node => if node ∈ nodes then none else heap.heldOf node := by
  have first := path.first
  obtain ⟨after, returned, emptied, commands⟩ :=
    destory_path path (fun _ _ => rfl) distinct live first (length_lt_rounds distinct live)
  refine ⟨after, ?_, emptied, commands⟩
  rw [destoryList, first, Outcome.ofOption_some, Outcome.returned_bind]
  exact returned

theorem destoryList_circle (circle : Circle heap.nextOf heap.prevOf head nodes)
    (live : ∀ node ∈ head :: nodes, node ∈ heap) :
    ∃ after, destoryList head heap = .returned (after, nodes.reverse) ∧
      Circle after.nextOf after.prevOf head [] ∧
        after.heldOf = fun node => if node ∈ nodes then none else heap.heldOf node := by
  obtain ⟨after, returned, emptied, commands⟩ :=
    destoryList_path circle.backward circle.turn.distinct (forall_mem_reverse live)
  refine ⟨after, returned, emptied, ?_⟩
  rw [commands]
  funext node
  simp only [List.mem_reverse]

end Dwadelib.ListMsg
