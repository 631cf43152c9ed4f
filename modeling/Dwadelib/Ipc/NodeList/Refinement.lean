import Dwadelib.Ipc.NodeList.Operations

namespace Dwadelib.Ipc.NodeList

/-! # Lists of nodes

What the calls are for, said of sequences of nodes behind heads. A search answers as the one over a sequence,
so what is proved with sequences is true of the linked lists.
-/

open Circular Linked Simulation

/-- The lists, the nodes in no list whose links are null, and the ids of the callback nodes. -/
structure Nodes where
  layout : Layout Address
  cleared : List Address
  cmdIdOf : Address → Option UInt32

def Nodes.empty : Nodes := { layout := Layout.empty, cleared := [], cmdIdOf := fun _ => none }

/-- An item is used in another place. -/
def Nodes.settle (nodes : Nodes) (item : Address) (layout : Layout Address) : Nodes :=
  { nodes with layout := layout, cleared := nodes.cleared.filter (· ≠ item) }

/-- An item is left without links. -/
def Nodes.unhook (nodes : Nodes) (item : Address) (layout : Layout Address) : Nodes :=
  { nodes with layout := layout, cleared := item :: nodes.cleared }

def settled (nodes : Nodes) (item : Address) (layout : Option (Layout Address)) : Option (Nodes × Answer) :=
  changed .done (layout.map fun layout => nodes.settle item layout)

def unhooked (nodes : Nodes) (item : Address) (layout : Option (Layout Address)) (answer : Answer) :
    Option (Nodes × Answer) := layout.map fun layout => (nodes.unhook item layout, answer)

/-- What is asked about an item of a list or the list itself. -/
def askedBeside (nodes : Nodes) (list item : Address) (answer : List Address → Option Address) :
    Option (Nodes × Answer) := do
  let entries ← nodes.layout.listOf list
  if item ∈ list :: entries then some (nodes, .entry (answer entries)) else none

def remove (nodes : Nodes) (list : Address) (pick : List Address → Option Address) : Option (Nodes × Answer) := do
  let entries ← nodes.layout.listOf list
  match pick entries with
  | some item => unhooked nodes item (nodes.layout.unlink item) (.entry (some item))
  | none => some (nodes, .entry none)

/-- The node that a search has found leaves its list. -/
def unhookFound (nodes : Nodes) : NodePointer → Option (Nodes × Answer)
  | .node item => unhooked nodes item (nodes.layout.unlink item) (.searched (.node item) true)
  | _ => none

def behind (list item : Address) (entries : List Address) : List Address := entries.drop ((list :: entries).idxOf item)

def before (item : Address) (entries : List Address) : List Address := entries.take (entries.idxOf item)

def step (nodes : Nodes) : Call → Option (Nodes × Answer)
  | .malloc node cmdId =>
      if node = null then none
      else (nodes.layout.create node).map fun layout =>
        ({ nodes with layout := layout, cmdIdOf := Function.update nodes.cmdIdOf node cmdId }, .done)
  | .free node => (nodes.layout.takeOut node).map fun layout =>
      ({ nodes.settle node layout with cmdIdOf := Function.update nodes.cmdIdOf node none }, .done)
  | .listInitialize list => settled nodes list (nodes.layout.initialise list)
  | .listClearNode item =>
      unhooked nodes item ((nodes.layout.takeOut item).map fun out => { out with loose := item :: out.loose }) .done
  | .listInList item =>
      if item ∈ Circular.cells nodes.layout.lists then some (nodes, .truth true)
      else if item ∈ nodes.cleared then some (nodes, .truth false)
      else none
  | .listAddHead list item => settled nodes item (nodes.layout.insertBehind item list)
  | .listAddTail list item => settled nodes item (nodes.layout.insertBefore item list)
  | .listDelete item => unhooked nodes item (nodes.layout.unlink item) .done
  | .listRemoveHead list => remove nodes list List.head?
  | .listRemoveTail list => remove nodes list List.getLast?
  | .listPeekHead list => asked nodes (fun entries => .entry entries.head?) (nodes.layout.listOf list)
  | .listPeekTail list => asked nodes (fun entries => .entry entries.getLast?) (nodes.layout.listOf list)
  | .listPrev list item => askedBeside nodes list item fun entries => (before item entries).getLast?
  | .listPrevWrap list item => askedBeside nodes list item fun entries =>
      (before item entries).getLast?.or entries.getLast?
  | .listNext list item => askedBeside nodes list item fun entries => (behind list item entries).head?
  | .listNextWrap list item => askedBeside nodes list item fun entries => (behind list item entries).head?.or entries.head?
  | .listIsEmpty list => asked nodes (fun entries => .truth (entries = [])) (nodes.layout.listOf list)
  | .listLength list => asked nodes (fun entries => .count entries.length) (nodes.layout.listOf list)
  | .listForEvery list => asked nodes .entries (nodes.layout.listOf list)
  | .search list cmdId remove callbackNode => do
      let entries ← nodes.layout.listOf list
      let found ← searchList nodes.cmdIdOf cmdId entries callbackNode
      if found.2 ∧ remove then unhookFound nodes found.1 else some (nodes, .searched found.1 found.2)

variable {heap after : Heap} {nodes next : Nodes} {item list : Address} {entries : List Address} {answer : Answer}
  {layout other : Layout Address} {rest : List (Address × List Address)} {loose : List Address}

structure Holds (heap : Heap) (nodes : Nodes) : Prop where
  represents : Represents heap nodes.layout
  nowhere : null ∉ heap
  unlinked : ∀ node ∈ nodes.cleared, Unlinked heap node
  cmdIds : cmdIdOf heap = nodes.cmdIdOf

theorem holds_empty : Holds (∅ : Heap) Nodes.empty := by
  refine ⟨represents_empty, AList.notMem_empty null, fun node member => by contradiction, ?_⟩
  funext node
  rfl

theorem cmdIdOf_congr (held : after.heldOf = heap.heldOf) : cmdIdOf after = cmdIdOf heap := by
  funext node
  rw [cmdIdOf, cmdIdOf, held]

theorem Holds.settle (holds : Holds heap nodes) (represents : Represents after other) (spares : Spares heap after item) :
    Holds after (nodes.settle item other) := by
  refine ⟨represents, fun live => holds.nowhere ((mem_congr spares.held).mp live), fun node member => ?_,
    (cmdIdOf_congr spares.held).trans holds.cmdIds⟩
  obtain ⟨cleared, differs⟩ := List.mem_filter.mp member
  exact spares.unlinked node (of_decide_eq_true differs) (holds.unlinked node cleared)

theorem Holds.unhook (holds : Holds heap nodes) (represents : Represents after other) (spares : Spares heap after item)
    (unlinked : Unlinked after item) : Holds after (nodes.unhook item other) := by
  refine ⟨represents, fun live => holds.nowhere ((mem_congr spares.held).mp live), fun node member => ?_,
    (cmdIdOf_congr spares.held).trans holds.cmdIds⟩
  by_cases same : node = item
  · rw [same]
    exact unlinked
  · exact spares.unlinked node same (holds.unlinked node ((List.mem_cons.mp member).resolve_left same))

theorem Holds.settles {produced : Option Heap} {result : Option (Layout Address)} (holds : Holds heap nodes)
    (does : ∀ other, result = some other → ∃ after, produced = some after ∧ Represents after other ∧ Spares heap after item) :
    ∀ model, (result.map fun layout => nodes.settle item layout) = some model →
      ∃ after, produced = some after ∧ Holds after model := by
  intro model settled
  obtain ⟨other, allowed, rfl⟩ := Option.map_eq_some_iff.mp settled
  obtain ⟨after, done, represents, spares⟩ := does other allowed
  exact ⟨after, done, holds.settle represents spares⟩

section Neighbours

variable {link back : Address → Option Address} {front behind : List Address}

theorem neighbour_eq (circle : Circle link back list (front ++ behind)) :
    neighbour link list (front.getLastD list) = some behind.head? := by
  obtain ⟨outside, -⟩ := List.nodup_cons.mp circle.distinct
  rw [neighbour, circle.between.1]
  cases behind with
  | nil => exact congrArg some (if_neg (not_not.mpr rfl))
  | cons first behind =>
      have apart : first ≠ list := ne_of_mem_of_not_mem (List.mem_append_right front List.mem_cons_self) outside
      exact congrArg some (if_pos apart)

theorem neighbourWrap_eq (circle : Circle link back list (front ++ behind)) :
    neighbourWrap link list (front.getLastD list) = some (behind.head?.or (front ++ behind).head?) := by
  obtain ⟨outside, -⟩ := List.nodup_cons.mp circle.distinct
  rw [neighbourWrap, circle.between.1]
  cases behind with
  | nil =>
      have first := circle.forward.first
      rw [List.append_nil] at first outside ⊢
      rw [Option.bind_eq_bind, Option.bind_some, List.headD_nil, if_neg (not_not.mpr rfl), first]
      cases front with
      | nil => exact congrArg some (if_neg (not_not.mpr rfl))
      | cons node front => exact congrArg some (if_pos (ne_of_mem_of_not_mem List.mem_cons_self outside))
  | cons first behind =>
      have apart : first ≠ list := ne_of_mem_of_not_mem (List.mem_append_right front List.mem_cons_self) outside
      exact if_pos apart

end Neighbours

section Questions

variable (related : Represents heap { lists := (list, entries) :: rest, loose := loose })
include related

/-- The list seen from an item on. -/
theorem circle_behind (member : item ∈ list :: entries) :
    Circle heap.nextOf heap.prevOf list (entries.take ((list :: entries).idxOf item) ++ behind list item entries) ∧
      (entries.take ((list :: entries).idxOf item)).getLastD list = item := by
  refine ⟨?_, getLastD_take_idxOf member⟩
  rw [behind, List.take_append_drop]
  exact related.circle

/-- The same in the other direction. -/
theorem circle_before (member : item ∈ list :: entries) :
    Circle heap.prevOf heap.nextOf list ((entries.drop (entries.idxOf item)).reverse ++ (before item entries).reverse) ∧
      (entries.drop (entries.idxOf item)).reverse.getLastD list = item := by
  refine ⟨?_, by rw [getLastD_reverse, headD_drop_idxOf member]⟩
  rw [before, ← List.reverse_append, List.take_append_drop]
  exact related.circle.turn

theorem listNext_eq (member : item ∈ list :: entries) : listNext list item heap = some (behind list item entries).head? := by
  obtain ⟨circle, same⟩ := circle_behind related member
  have found := neighbour_eq circle
  rw [same] at found
  exact found

theorem listNextWrap_eq (member : item ∈ list :: entries) :
    listNextWrap list item heap = some ((behind list item entries).head?.or entries.head?) := by
  obtain ⟨circle, same⟩ := circle_behind related member
  have found := neighbourWrap_eq circle
  rw [same, behind, List.take_append_drop] at found
  exact found

theorem listPrev_eq (member : item ∈ list :: entries) : listPrev list item heap = some (before item entries).getLast? := by
  obtain ⟨circle, same⟩ := circle_before related member
  have found := neighbour_eq circle
  rw [same, List.head?_reverse] at found
  exact found

theorem listPrevWrap_eq (member : item ∈ list :: entries) :
    listPrevWrap list item heap = some ((before item entries).getLast?.or entries.getLast?) := by
  obtain ⟨circle, same⟩ := circle_before related member
  have found := neighbourWrap_eq circle
  rw [same, ← List.reverse_append, before, List.take_append_drop, List.head?_reverse, List.head?_reverse] at found
  exact found

theorem listPeekHead_eq : listPeekHead list heap = some entries.head? := by
  have found := listNext_eq related List.mem_cons_self
  rw [behind, List.idxOf_cons_self, List.drop_zero] at found
  exact found

theorem listPeekTail_eq : listPeekTail list heap = some entries.getLast? := by
  have outside : list ∉ entries := (List.nodup_cons.mp related.circle.distinct).1
  have found := listPrev_eq related List.mem_cons_self
  rw [before, List.idxOf_eq_length outside, List.take_length] at found
  exact found

theorem listIsEmpty_eq : listIsEmpty list heap = some (decide (entries = [])) := by
  have first : heap.nextOf list = some (entries.headD list) := related.circle.forward.first
  rw [listIsEmpty, first]
  cases entries with
  | nil => simp
  | cons node entries =>
      have apart : node ≠ list := fun equal =>
        (List.nodup_cons.mp related.circle.distinct).1 (equal ▸ List.mem_cons_self)
      simp [apart]

omit related in
theorem inTurn_count (cnt : Nat) :
    inTurn (fun _ cnt => return .next (cnt + 1)) id entries cnt = .returned (cnt + entries.length) := by
  induction entries generalizing cnt with
  | nil => rfl
  | cons node entries ih =>
      rw [inTurn]
      exact (ih (cnt + 1)).trans (by rw [List.length_cons, Nat.add_right_comm, Nat.add_assoc])

theorem listLength_eq : (listLength list heap).toOption = some entries.length := by
  rw [listLength, related.each_next, inTurn_count, Nat.zero_add]
  rfl

end Questions

theorem removeEnd_matched {link : Option Address} {pick : List Address → Option Address} (holds : Holds heap nodes)
    (taken : remove nodes list pick = some (next, answer))
    (ends : ∀ entries rest, Represents heap { lists := (list, entries) :: rest, loose := nodes.layout.loose } →
      link = some ((pick entries).getD list))
    (inside : ∀ entries item, pick entries = some item → item ∈ entries) :
    ∃ after, ((removeEnd link list heap).map fun removed => (removed.1, Answer.entry removed.2)) = some (after, answer) ∧
      Holds after next := by
  obtain ⟨entries, listed, taken⟩ := Option.bind_eq_some_iff.mp taken
  obtain ⟨rest, opened⟩ := holds.represents.listed listed
  have found := ends entries rest opened
  cases picked : pick entries with
  | none =>
      rw [picked] at taken found
      cases taken
      refine ⟨heap, ?_, holds⟩
      rw [removeEnd, found, Option.getD_none, Option.bind_eq_bind, Option.bind_some, if_neg (not_not.mpr rfl),
        Option.map_some]
  | some item =>
      rw [picked] at taken found
      obtain ⟨other, allowed, same⟩ := Option.map_eq_some_iff.mp taken
      obtain ⟨rfl, rfl⟩ := Prod.mk.inj same
      have apart : item ≠ list :=
        ne_of_mem_of_not_mem (inside entries item picked) (List.nodup_cons.mp opened.circle.distinct).1
      obtain ⟨after, deleted, represents, spares, unlinked⟩ := listDelete_does holds.represents holds.nowhere allowed
      refine ⟨after, ?_, holds.unhook represents spares unlinked⟩
      rw [removeEnd, found, Option.getD_some, Option.bind_eq_bind, Option.bind_some, if_pos apart, deleted]
      rfl

/-- The loop meets the nodes as the search over a sequence does. -/
theorem inTurn_search {cmdId : UInt32} {hit : Bool} {callbackNode result : NodePointer} (remove : Bool)
    (finish : NodePointer → Searched)
    (searched : searchList (cmdIdOf heap) cmdId entries callbackNode = some (result, hit)) :
    (hit = false ∧ inTurn (searchBody cmdId remove heap) finish entries callbackNode = .returned (finish result)) ∨
      ∃ item ∈ entries, result = .node item ∧ hit = true ∧
        ∀ after, (if remove then listDelete item heap else some heap) = some after →
          inTurn (searchBody cmdId remove heap) finish entries callbackNode =
            .returned { callbackNode := result, hit := true, heap := after } := by
  induction entries generalizing callbackNode with
  | nil =>
      cases searched
      exact .inl ⟨rfl, rfl⟩
  | cons node entries ih =>
      obtain ⟨found, known, searched⟩ := Option.bind_eq_some_iff.mp searched
      by_cases same : found = cmdId
      · rw [if_pos same] at searched
        cases searched
        refine .inr ⟨node, List.mem_cons_self, rfl, rfl, fun after deleted => ?_⟩
        rw [inTurn, searchBody, known, Outcome.ofOption_some, Outcome.returned_bind, if_pos same, deleted]
        rfl
      · rw [if_neg same] at searched
        have goesOn : inTurn (searchBody cmdId remove heap) finish (node :: entries) callbackNode =
            inTurn (searchBody cmdId remove heap) finish entries (.node node) := by
          rw [inTurn, searchBody, known, Outcome.ofOption_some, Outcome.returned_bind, if_neg same]
          rfl
        rw [goesOn]
        rcases ih searched with missed | ⟨item, member, pointed, flag, ends⟩
        · exact .inl missed
        · exact .inr ⟨item, List.mem_cons_of_mem node member, pointed, flag, ends⟩

theorem search_matched {cmdId : UInt32} {remove : Bool} {callbackNode : NodePointer} (holds : Holds heap nodes)
    (taken : step nodes (.search list cmdId remove callbackNode) = some (next, answer)) :
    ∃ after, perform heap (.search list cmdId remove callbackNode) = some (after, answer) ∧ Holds after next := by
  obtain ⟨entries, listed, taken⟩ := Option.bind_eq_some_iff.mp taken
  obtain ⟨⟨result, hit⟩, searched, taken⟩ := Option.bind_eq_some_iff.mp taken
  obtain ⟨rest, opened⟩ := holds.represents.listed listed
  rw [← holds.cmdIds] at searched
  have loop : search list cmdId remove callbackNode heap = inTurn (searchBody cmdId remove heap)
      (fun callbackNode => { callbackNode := callbackNode, hit := false, heap := heap }) entries callbackNode :=
    opened.each_next
  rcases inTurn_search remove (fun callbackNode => { callbackNode := callbackNode, hit := false, heap := heap })
    searched with ⟨rfl, ends⟩ | ⟨item, member, rfl, rfl, ends⟩
  · rw [if_neg (fun both => Bool.false_ne_true both.1)] at taken
    cases taken
    refine ⟨heap, ?_, holds⟩
    rw [perform, loop, ends]
    rfl
  · cases remove with
    | true =>
        rw [if_pos ⟨rfl, rfl⟩] at taken
        obtain ⟨other, allowed, same⟩ := Option.map_eq_some_iff.mp taken
        obtain ⟨rfl, rfl⟩ := Prod.mk.inj same
        obtain ⟨after, deleted, represents, spares, unlinked⟩ := listDelete_does holds.represents holds.nowhere allowed
        refine ⟨after, ?_, holds.unhook represents spares unlinked⟩
        rw [perform, loop, ends after deleted]
        rfl
    | false =>
        rw [if_neg (fun both => Bool.false_ne_true both.2)] at taken
        cases taken
        refine ⟨heap, ?_, holds⟩
        rw [perform, loop, ends heap rfl]
        rfl

theorem malloc_matched {node : Address} {cmdId : Option UInt32} (holds : Holds heap nodes)
    (taken : step nodes (.malloc node cmdId) = some (next, answer)) :
    ∃ after, perform heap (.malloc node cmdId) = some (after, answer) ∧ Holds after next := by
  obtain ⟨positive, taken⟩ := Option.ite_none_left_eq_some.mp taken
  obtain ⟨other, created, same⟩ := Option.map_eq_some_iff.mp taken
  obtain ⟨rfl, rfl⟩ := Prod.mk.inj same
  obtain ⟨fresh, same⟩ := Option.ite_none_left_eq_some.mp created
  cases same
  have unused : node ∉ heap := fun live => fresh ((holds.represents.alive node).mp live)
  obtain ⟨after, allocated, represents⟩ : ∃ after, heap.allocate node cmdId = some after ∧
      Represents after { nodes.layout with loose := node :: nodes.layout.loose } := holds.represents.create fresh
  obtain ⟨_, again, nextAfter, prevAfter, heldAfter⟩ := allocate_links cmdId unused
  cases allocated.symm.trans again
  refine ⟨after, by rw [perform, if_neg positive, changed, allocated, Option.map_some], represents, ?_, ?_, ?_⟩
  · rw [mem_iff_heldOf, heldAfter, Function.update_of_ne (Ne.symm positive), ← mem_iff_heldOf]
    exact holds.nowhere
  · intro other member
    have unlinked := holds.unlinked other member
    have differs : other ≠ node := by
      rintro rfl
      obtain ⟨cell, lookup, -⟩ := Option.bind_eq_some_iff.mp unlinked.1
      exact unused (AList.lookup_isSome.mp (Option.isSome_iff_exists.mpr ⟨cell, lookup⟩))
    rw [Unlinked, nextAfter, prevAfter, Function.update_of_ne differs, Function.update_of_ne differs]
    exact unlinked
  · funext other
    rw [cmdIdOf, heldAfter]
    by_cases same : other = node
    · rw [same, Function.update_self]
      exact (Function.update_self node cmdId nodes.cmdIdOf).symm
    · rw [Function.update_of_ne same]
      exact (congrFun holds.cmdIds other).trans (Function.update_of_ne same _ _).symm

theorem free_matched {node : Address} (holds : Holds heap nodes)
    (taken : step nodes (.free node) = some (next, answer)) :
    ∃ after, perform heap (.free node) = some (after, answer) ∧ Holds after next := by
  obtain ⟨out, allowed, same⟩ := Option.map_eq_some_iff.mp taken
  obtain ⟨rfl, rfl⟩ := Prod.mk.inj same
  have opened := holds.represents.takeOut allowed
  obtain ⟨after, freed, represents⟩ := opened.release
  obtain ⟨_, again, nextAfter, prevAfter, heldAfter⟩ := free_links (opened.live_loose List.mem_cons_self)
  cases freed.symm.trans again
  refine ⟨after, by rw [perform, changed, freed, Option.map_some], represents, ?_, ?_, ?_⟩
  · rw [mem_iff_heldOf, heldAfter]
    by_cases same : null = node
    · rw [← same, Function.update_self]
      exact Bool.false_ne_true
    · rw [Function.update_of_ne same, ← mem_iff_heldOf]
      exact holds.nowhere
  · intro other member
    obtain ⟨cleared, kept⟩ := List.mem_filter.mp member
    have differs : other ≠ node := of_decide_eq_true kept
    rw [Unlinked, nextAfter, prevAfter, Function.update_of_ne differs, Function.update_of_ne differs]
    exact holds.unlinked other cleared
  · funext other
    rw [cmdIdOf, heldAfter]
    by_cases same : other = node
    · rw [same, Function.update_self]
      exact (Function.update_self node none nodes.cmdIdOf).symm
    · rw [Function.update_of_ne same]
      exact (congrFun holds.cmdIds other).trans (Function.update_of_ne same _ _).symm

theorem listClearNode_matched (holds : Holds heap nodes)
    (taken : step nodes (.listClearNode item) = some (next, answer)) :
    ∃ after, perform heap (.listClearNode item) = some (after, answer) ∧ Holds after next := by
  obtain ⟨other, allowed, same⟩ := Option.map_eq_some_iff.mp taken
  obtain ⟨rfl, rfl⟩ := Prod.mk.inj same
  obtain ⟨out, out_taken, rfl⟩ := Option.map_eq_some_iff.mp allowed
  obtain ⟨after, cleared, represents, spares, unlinked⟩ :=
    listClearNode_does (holds.represents.takeOut out_taken) List.mem_cons_self
  exact ⟨after, by rw [perform, changed, cleared, Option.map_some], holds.unhook represents spares unlinked⟩

theorem listInList_matched (holds : Holds heap nodes)
    (taken : step nodes (.listInList item) = some (next, answer)) :
    ∃ after, perform heap (.listInList item) = some (after, answer) ∧ Holds after next := by
  rw [step] at taken
  by_cases member : item ∈ Circular.cells nodes.layout.lists
  · rw [if_pos member] at taken
    cases taken
    obtain ⟨_, prev, -, back, -, linked⟩ := linked_of_mem holds.represents holds.nowhere member
    refine ⟨heap, ?_, holds⟩
    rw [perform, asked, listInList, back, Option.bind_eq_bind, Option.bind_some, if_neg linked, Option.map_some]
  · rw [if_neg member] at taken
    obtain ⟨cleared, same⟩ := Option.ite_none_right_eq_some.mp taken
    cases same
    obtain ⟨onwards, back⟩ := holds.unlinked item cleared
    refine ⟨heap, ?_, holds⟩
    rw [perform, listInList, back, Option.bind_eq_bind, Option.bind_some, if_pos rfl, onwards]
    rfl

theorem listDelete_matched (holds : Holds heap nodes)
    (taken : step nodes (.listDelete item) = some (next, answer)) :
    ∃ after, perform heap (.listDelete item) = some (after, answer) ∧ Holds after next := by
  obtain ⟨other, allowed, same⟩ := Option.map_eq_some_iff.mp taken
  obtain ⟨rfl, rfl⟩ := Prod.mk.inj same
  obtain ⟨after, deleted, represents, spares, unlinked⟩ := listDelete_does holds.represents holds.nowhere allowed
  exact ⟨after, by rw [perform, changed, deleted, Option.map_some], holds.unhook represents spares unlinked⟩

/-- A question about an item of a list. -/
theorem askedBeside_matched {asking : Option (Option Address)} {meaning : List Address → Option Address}
    (holds : Holds heap nodes) (taken : askedBeside nodes list item meaning = some (next, answer))
    (answers : ∀ entries rest, Represents heap { lists := (list, entries) :: rest, loose := nodes.layout.loose } →
      item ∈ list :: entries → asking = some (meaning entries)) :
    ∃ after, asked heap .entry asking = some (after, answer) ∧ Holds after next := by
  obtain ⟨entries, listed, taken⟩ := Option.bind_eq_some_iff.mp taken
  obtain ⟨member, same⟩ := Option.ite_none_right_eq_some.mp taken
  cases same
  obtain ⟨rest, opened⟩ := holds.represents.listed listed
  exact ⟨heap, by rw [asked, answers entries rest opened member, Option.map_some], holds⟩

theorem perform_simulates : Simulates perform step Holds := by
  constructor
  intro heap nodes call next answer holds taken
  cases call with
  | malloc node cmdId => exact malloc_matched holds taken
  | free node => exact free_matched holds taken
  | listInitialize list => exact changed_matched taken (holds.settles fun _ => listInitialize_does holds.represents)
  | listClearNode item => exact listClearNode_matched holds taken
  | listInList item => exact listInList_matched holds taken
  | listAddHead list item =>
      exact changed_matched taken (holds.settles fun _ => listAddHead_does holds.represents holds.nowhere)
  | listAddTail list item =>
      exact changed_matched taken (holds.settles fun _ => listAddTail_does holds.represents holds.nowhere)
  | listDelete item => exact listDelete_matched holds taken
  | listRemoveHead list =>
      refine removeEnd_matched holds taken (fun entries rest opened => ?_) fun _ _ => List.mem_of_head?
      rw [← List.headD_eq_head?_getD]
      exact opened.circle.forward.first
  | listRemoveTail list =>
      refine removeEnd_matched holds taken (fun entries rest opened => ?_) fun _ _ => List.mem_of_getLast?
      have last := opened.circle.backward.first
      rw [← List.getLastD_eq_getLast?, ← headD_reverse]
      exact last
  | listPeekHead list => exact asked_matched holds taken (holds.represents.tells fun _ _ => listPeekHead_eq)
  | listPeekTail list => exact asked_matched holds taken (holds.represents.tells fun _ _ => listPeekTail_eq)
  | listPrev list item => exact askedBeside_matched holds taken fun _ _ => listPrev_eq
  | listPrevWrap list item => exact askedBeside_matched holds taken fun _ _ => listPrevWrap_eq
  | listNext list item => exact askedBeside_matched holds taken fun _ _ => listNext_eq
  | listNextWrap list item => exact askedBeside_matched holds taken fun _ _ => listNextWrap_eq
  | listIsEmpty list => exact asked_matched holds taken (holds.represents.tells fun _ _ => listIsEmpty_eq)
  | listLength list => exact asked_matched holds taken (holds.represents.tells fun _ _ => listLength_eq)
  | listForEvery list =>
      refine asked_matched holds taken (holds.represents.tells fun entries rest opened => ?_)
      rw [listForEvery, opened.walk_next]
      rfl
  | search list cmdId remove callbackNode => exact search_matched holds taken

/-- Every run of calls that sequences of nodes allow is answered by the linked lists as by them, the searches as the
ones over sequences. Afterwards each list is a circle of different nodes, exactly the nodes in some place are alive,
and a node is linked unless it was set to null since it was last in a list. -/
theorem nodes_refine {calls : List Call} {answers : List Answer} {final : Nodes}
    (performed : performAll step Nodes.empty calls = some (final, answers)) :
    ∃ heap : Heap, performAll perform (∅ : Heap) calls = some (heap, answers) ∧
      final.layout.cells.Nodup ∧ (∀ node, node ∈ heap ↔ node ∈ final.layout.cells) ∧ null ∉ heap ∧
      cmdIdOf heap = final.cmdIdOf ∧
      (∀ list ∈ final.layout.lists, Circle heap.nextOf heap.prevOf list.1 list.2 ∧
        listForEvery list.1 heap = .returned list.2) ∧
      (∀ node ∈ Circular.cells final.layout.lists, listInList node heap = some true) ∧
      ∀ node ∈ final.cleared, listInList node heap = some false := by
  obtain ⟨heap, ran, holds⟩ := perform_simulates.performAll holds_empty performed
  refine ⟨heap, ran, holds.represents.distinct, holds.represents.alive, holds.nowhere, holds.cmdIds, ?_, ?_, ?_⟩
  · intro list member
    have perm : final.layout.lists.Perm (list :: final.layout.lists.erase list) := List.perm_cons_erase member
    have opened : Represents heap { lists := list :: final.layout.lists.erase list, loose := final.layout.loose } :=
      holds.represents.rearrange ((cells_perm perm.symm).append_right final.layout.loose) fun ring inside =>
        perm.mem_iff.mpr inside
    exact ⟨holds.represents.rings list member, opened.walk_next⟩
  · intro node member
    obtain ⟨_, prev, -, back, -, linked⟩ := linked_of_mem holds.represents holds.nowhere member
    rw [listInList, back, Option.bind_eq_bind, Option.bind_some, if_neg linked]
  · intro node member
    obtain ⟨onwards, back⟩ := holds.unlinked node member
    rw [listInList, back, Option.bind_eq_bind, Option.bind_some, if_pos rfl, onwards]
    rfl

/-- Three callback nodes, two of them with one id; the second search finds none. -/
theorem nodes_refine_searched :
    ∃ heap : Heap, performAll perform (∅ : Heap)
        [.malloc 1 none, .listInitialize 1, .malloc 10 (some 5), .listInitialize 10, .listAddTail 1 10,
          .malloc 11 (some 7), .listAddTail 1 11, .malloc 12 (some 7), .listAddTail 11 12, .search 1 7 true .wild, .free 12,
          .search 1 9 true .null, .listDelete 10, .listInList 10, .listPrevWrap 1 11, .listLength 1] =
        some (heap, [.done, .done, .done, .done, .done, .done, .done, .done, .done, .searched (.node 12) true, .done,
          .searched (.node 11) false, .done, .truth false, .entry (some 11), .count 1]) ∧
      listForEvery 1 heap = .returned [11] ∧ null ∉ heap := by
  have performed : performAll step Nodes.empty
      [.malloc 1 none, .listInitialize 1, .malloc 10 (some 5), .listInitialize 10, .listAddTail 1 10,
        .malloc 11 (some 7), .listAddTail 1 11, .malloc 12 (some 7), .listAddTail 11 12, .search 1 7 true .wild, .free 12,
        .search 1 9 true .null, .listDelete 10, .listInList 10, .listPrevWrap 1 11, .listLength 1] =
      some ({ layout := { lists := [(1, [11])], loose := [10] }, cleared := [10], cmdIdOf := _ },
        [.done, .done, .done, .done, .done, .done, .done, .done, .done, .searched (.node 12) true, .done,
          .searched (.node 11) false, .done, .truth false, .entry (some 11), .count 1]) := rfl
  obtain ⟨heap, ran, -, -, nowhere, -, lists, -⟩ := nodes_refine performed
  exact ⟨heap, ran, (lists (1, [11]) (List.mem_singleton_self _)).2, nowhere⟩

end Dwadelib.Ipc.NodeList
