import Dwadelib.KernelList.Operations
import Mathlib.Data.List.Rotate

namespace Dwadelib.KernelList

/-! # Lists of entries

What the calls are for, said of sequences of entries behind heads, and that the linked lists do it: on every
run, for any number of lists that share no entry.
-/

open Circular Linked Simulation

variable {β : Type} {heap : Heap β} {layout : Layout Address} {head entry : Address} {nodes : List Address}

def atFront (_ : List Address) : Nat := 0

def atBack (entries : List Address) : Nat := entries.length

/-- The first entry of the list becomes its last one. -/
def rotate (layout : Layout Address) (head : Address) : Option (Layout Address) :=
  (layout.focus (Layout.headed head)).map fun found =>
    { layout with lists := (head, found.1.2.rotate 1) :: found.2 }

/-- A cell that is no entry of the list cuts nothing off if the list has at most one entry; otherwise it is
not to be given. -/
def cutPosition (layout : Layout Address) (list head entry : Address) : Option (Layout Address) := do
  let entries ← layout.listOf head
  if entries = [] ∨ entries.length = 1 ∧ entry ∉ head :: entries then some layout
  else if entry = head then layout.initialise list
  else layout.cut list head entry

def spliceInto (layout : Layout Address) (list head : Address) (place : List Address → Nat) (init : Bool) :
    Option (Layout Address) := do
  let entries ← layout.listOf list
  if entries = [] then some layout
  else
    let spliced ← layout.splice list head place
    if init then spliced.initialise list else some spliced

def step (layout : Layout Address) : Call β → Option (Layout Address × Answer)
  | .malloc node _ => changed .done (layout.create node)
  | .free node => changed .done (layout.takeOut node)
  | .initListHead list => changed .done (layout.initialise list)
  | .listAdd new head => changed .done (layout.insert new head atFront)
  | .listAddTail new head => changed .done (layout.insert new head atBack)
  | .listDel entry => changed .done (layout.unlink entry)
  | .listDelInit entry => changed .done ((layout.unlink entry).bind fun out => out.initialise entry)
  | .listReplace old new => changed .done (layout.replace old new)
  | .listReplaceInit old new => changed .done ((layout.replace old new).bind fun out => out.initialise old)
  | .listMove list head => changed .done ((layout.unlink list).bind fun out => out.insert list head atFront)
  | .listMoveTail list head => changed .done ((layout.unlink list).bind fun out => out.insert list head atBack)
  | .listRotateLeft head => changed .done (rotate layout head)
  | .listCutPosition list head entry => changed .done (cutPosition layout list head entry)
  | .listSplice list head => changed .done (spliceInto layout list head atFront false)
  | .listSpliceTail list head => changed .done (spliceInto layout list head atBack false)
  | .listSpliceInit list head => changed .done (spliceInto layout list head atFront true)
  | .listSpliceTailInit list head => changed .done (spliceInto layout list head atBack true)
  | .listIsLast list head => (layout.listOf head).bind fun entries =>
      if list ∈ entries then some (layout, .truth (entries.getLast? = some list)) else none
  | .listEmpty head => asked layout (fun entries => .truth (entries = [])) (layout.listOf head)
  | .listEmptyCareful head => asked layout (fun entries => .truth (entries = [])) (layout.listOf head)
  | .listIsSingular head => asked layout (fun entries => .truth (entries.length = 1)) (layout.listOf head)
  | .listFirstEntryOrNull head => asked layout (fun entries => .entry entries.head?) (layout.listOf head)
  | .listForEach head => asked layout .entries (layout.listOf head)
  | .listForEachPrev head => asked layout (fun entries => .entries entries.reverse) (layout.listOf head)

/-- An operation on the heap does what one on the layout does. -/
def Does (heap : Heap β) (operation : Heap β → Option (Heap β)) (other : Layout Address) : Prop :=
  ∃ after, operation heap = some after ∧ Represents after other

section Calls

variable {other : Layout Address} {list new old : Address} {place : List Address → Nat} (related : Represents heap layout)
include related

theorem initialise_does (allowed : layout.initialise list = some other) : Does heap (initListHead list) other := by
  obtain ⟨lists, loose, opened, rfl⟩ := related.initialised allowed
  exact initListHead_represents opened

theorem listAdd_does (allowed : layout.insert new head atFront = some other) : Does heap (listAdd new head) other := by
  obtain ⟨entries, rest, loose, opened, rfl⟩ := related.inserted allowed
  exact listAdd_represents opened

theorem listAddTail_does (allowed : layout.insert new head atBack = some other) :
    Does heap (listAddTail new head) other := by
  obtain ⟨entries, rest, loose, opened, rfl⟩ := related.inserted allowed
  rw [atBack, List.take_length, List.drop_length]
  exact listAddTail_represents opened

theorem listDelInit_does (allowed : ((layout.unlink entry).bind fun out => out.initialise entry) = some other) :
    Does heap (listDelInit entry) other := by
  obtain ⟨out, unlinked, initialised⟩ := Option.bind_eq_some_iff.mp allowed
  obtain ⟨middle, deleted, represents⟩ := listUnlink_represents related unlinked
  obtain ⟨after, done, final⟩ := initialise_does represents initialised
  exact ⟨after, by rw [listDelInit, deleted]; exact done, final⟩

theorem listReplaceInit_does (allowed : ((layout.replace old new).bind fun out => out.initialise old) = some other) :
    Does heap (listReplaceInit old new) other := by
  obtain ⟨out, replaced, initialised⟩ := Option.bind_eq_some_iff.mp allowed
  obtain ⟨middle, first, represents⟩ := listReplace_represents related replaced
  obtain ⟨after, done, final⟩ := initialise_does represents initialised
  exact ⟨after, by rw [listReplaceInit, first]; exact done, final⟩

theorem listMove_does (allowed : ((layout.unlink list).bind fun out => out.insert list head atFront) = some other) :
    Does heap (listMove list head) other := by
  obtain ⟨out, unlinked, inserted⟩ := Option.bind_eq_some_iff.mp allowed
  obtain ⟨middle, deleted, represents⟩ := listUnlink_represents related unlinked
  obtain ⟨after, done, final⟩ := listAdd_does represents inserted
  exact ⟨after, by rw [listMove, deleted]; exact done, final⟩

theorem listMoveTail_does (allowed : ((layout.unlink list).bind fun out => out.insert list head atBack) = some other) :
    Does heap (listMoveTail list head) other := by
  obtain ⟨out, unlinked, inserted⟩ := Option.bind_eq_some_iff.mp allowed
  obtain ⟨middle, deleted, represents⟩ := listUnlink_represents related unlinked
  obtain ⟨after, done, final⟩ := listAddTail_does represents inserted
  exact ⟨after, by rw [listMoveTail, deleted]; exact done, final⟩

theorem listRotateLeft_does (allowed : rotate layout head = some other) : Does heap (listRotateLeft head) other := by
  obtain ⟨found, focused, rfl⟩ := Option.map_eq_some_iff.mp allowed
  obtain ⟨⟨head', entries⟩, rest⟩ := found
  have isHead : head' = head := of_decide_eq_true (focus_eq_some focused).2
  subst isHead
  have opened := related.focus focused
  have empty := listEmpty_represents opened
  cases entries with
  | nil => exact ⟨heap, by rw [listRotateLeft, empty]; rfl, opened⟩
  | cons first entries =>
      have unlinked : Layout.unlink { lists := (head', first :: entries) :: rest, loose := layout.loose } first =
          some { lists := (head', entries) :: rest, loose := first :: layout.loose } := by
        simp [Layout.unlink, Layout.focus, Layout.holding]
      obtain ⟨middle, deleted, represents⟩ := listUnlink_represents opened unlinked
      obtain ⟨after, added, final⟩ := listAddTail_represents represents
      have rotated : (first :: entries).rotate 1 = entries ++ [first] := by
        rw [List.rotate_cons_succ, List.rotate_zero]
      refine ⟨after, ?_, by rw [rotated]; exact final⟩
      have begun : heap.nextOf head' = some first := opened.circle.forward.first
      rw [listRotateLeft, empty]
      simp only [Option.bind_eq_bind, Option.bind_some, reduceCtorEq, decide_false, Bool.false_eq_true, if_false, begun,
        listMoveTail, deleted, added]

theorem listCutPosition_does (allowed : cutPosition layout list head entry = some other) :
    Does heap (listCutPosition list head entry) other := by
  obtain ⟨entries, listed, allowed⟩ := Option.bind_eq_some_iff.mp allowed
  obtain ⟨rest, opened⟩ := related.listed listed
  have empty := listEmpty_represents opened
  have singular := listIsSingular_represents opened
  have first : heap.nextOf head = some (entries.headD head) := opened.circle.forward.first
  by_cases none : entries = []
  · rw [if_pos (.inl none)] at allowed
    cases allowed
    exact ⟨heap, by rw [listCutPosition, empty, decide_eq_true none]; rfl, related⟩
  · have whole : listCutPosition list head entry heap =
        if entries.length = 1 ∧ entries.headD head ≠ entry ∧ head ≠ entry then some heap
        else if entry = head then initListHead list heap
        else internalListCutPosition list head entry heap := by
      rw [listCutPosition, empty, singular, first]
      simp [none]
    have outside : entries.length = 1 → (entry ∉ head :: entries ↔ entries.headD head ≠ entry ∧ head ≠ entry) := by
      intro single
      obtain ⟨only, rfl⟩ := List.length_eq_one_iff.mp single
      rw [List.headD_cons, List.mem_cons, List.mem_singleton, not_or, and_comm, ne_comm, @ne_comm _ head]
    rw [Does, whole]
    by_cases single : entries.length = 1 ∧ entry ∉ head :: entries
    · rw [if_pos (.inr single)] at allowed
      cases allowed
      rw [if_pos ⟨single.1, (outside single.1).mp single.2⟩]
      exact ⟨heap, rfl, related⟩
    · rw [if_neg (not_or.mpr ⟨none, single⟩)] at allowed
      have goesOn : ¬ (entries.length = 1 ∧ entries.headD head ≠ entry ∧ head ≠ entry) := fun both =>
        single ⟨both.1, (outside both.1).mpr both.2⟩
      rw [if_neg goesOn]
      by_cases isHead : entry = head
      · rw [if_pos isHead] at allowed ⊢
        exact initialise_does related allowed
      · rw [if_neg isHead] at allowed ⊢
        obtain ⟨front, back, rest, loose, nonempty, last, divided, rfl⟩ := related.divided allowed
        exact internalListCutPosition_represents divided nonempty last

theorem spliceFront_does (allowed : layout.splice list head atFront = some other) :
    ∃ next, heap.nextOf head = some next ∧ Does heap (internalListSplice list head next) other := by
  obtain ⟨nodes, entries, rest, nonempty, opened, rfl⟩ := related.spliced allowed
  have first : heap.nextOf head = some (entries.headD head) := (rings_cons.mp opened.others).1.forward.first
  rw [← List.nil_append entries] at opened
  exact ⟨_, first, internalListSplice_represents opened nonempty⟩

theorem spliceBack_does (allowed : layout.splice list head atBack = some other) :
    ∃ prev, heap.prevOf head = some prev ∧ Does heap (internalListSplice list prev head) other := by
  obtain ⟨nodes, entries, rest, nonempty, opened, rfl⟩ := related.spliced allowed
  have last : heap.prevOf head = some (entries.getLastD head) := by
    rw [← headD_reverse]
    exact (rings_cons.mp opened.others).1.backward.first
  have whole : entries = entries ++ [] := (List.append_nil entries).symm
  rw [whole] at opened
  rw [atBack, List.take_length, List.drop_length]
  exact ⟨_, last, internalListSplice_represents opened nonempty⟩

theorem spliceInto_cases {init : Bool} (allowed : spliceInto layout list head place init = some other) :
    (listEmpty list heap = some true ∧ Represents heap other) ∨
      (listEmpty list heap = some false ∧ ∃ out, layout.splice list head place = some out ∧
        (if init then out.initialise list else some out) = some other) := by
  obtain ⟨entries, listed, allowed⟩ := Option.bind_eq_some_iff.mp allowed
  obtain ⟨rest, opened⟩ := related.listed listed
  rw [listEmpty_represents opened]
  by_cases none : entries = []
  · rw [if_pos none] at allowed
    cases allowed
    exact .inl ⟨by rw [decide_eq_true none], related⟩
  · rw [if_neg none] at allowed
    exact .inr ⟨by rw [decide_eq_false none], Option.bind_eq_some_iff.mp allowed⟩

theorem listSplice_does (allowed : spliceInto layout list head atFront false = some other) :
    Does heap (listSplice list head) other := by
  rcases spliceInto_cases related allowed with ⟨empty, represents⟩ | ⟨empty, out, spliced, same⟩
  · exact ⟨heap, by rw [listSplice, empty]; rfl, represents⟩
  · cases same
    obtain ⟨next, first, after, done, represents⟩ := spliceFront_does related spliced
    exact ⟨after, by rw [listSplice, empty, first]; exact done, represents⟩

theorem listSpliceTail_does (allowed : spliceInto layout list head atBack false = some other) :
    Does heap (listSpliceTail list head) other := by
  rcases spliceInto_cases related allowed with ⟨empty, represents⟩ | ⟨empty, out, spliced, same⟩
  · exact ⟨heap, by rw [listSpliceTail, empty]; rfl, represents⟩
  · cases same
    obtain ⟨prev, last, after, done, represents⟩ := spliceBack_does related spliced
    exact ⟨after, by rw [listSpliceTail, empty, last]; exact done, represents⟩

theorem listSpliceInit_does (allowed : spliceInto layout list head atFront true = some other) :
    Does heap (listSpliceInit list head) other := by
  rcases spliceInto_cases related allowed with ⟨empty, represents⟩ | ⟨empty, out, spliced, initialised⟩
  · exact ⟨heap, by rw [listSpliceInit, empty]; rfl, represents⟩
  · obtain ⟨next, first, middle, moved, represents⟩ := spliceFront_does related spliced
    obtain ⟨after, done, final⟩ := initialise_does represents initialised
    refine ⟨after, ?_, final⟩
    simp only [listSpliceInit, empty, first, moved, done, Option.bind_eq_bind, Option.bind_some,
      Bool.false_eq_true, if_false]

theorem listSpliceTailInit_does (allowed : spliceInto layout list head atBack true = some other) :
    Does heap (listSpliceTailInit list head) other := by
  rcases spliceInto_cases related allowed with ⟨empty, represents⟩ | ⟨empty, out, spliced, initialised⟩
  · exact ⟨heap, by rw [listSpliceTailInit, empty]; rfl, represents⟩
  · obtain ⟨prev, last, middle, moved, represents⟩ := spliceBack_does related spliced
    obtain ⟨after, done, final⟩ := initialise_does represents initialised
    refine ⟨after, ?_, final⟩
    simp only [listSpliceTailInit, empty, last, moved, done, Option.bind_eq_bind, Option.bind_some,
      Bool.false_eq_true, if_false]

end Calls

theorem perform_simulates : Simulates (perform (β := β)) step Represents := by
  constructor
  intro heap layout call next answer related taken
  cases call with
  | malloc node held =>
      refine changed_matched taken fun other allowed => ?_
      obtain ⟨fresh, same⟩ := Option.ite_none_left_eq_some.mp allowed
      cases same
      exact related.create fresh
  | free node =>
      refine changed_matched taken fun other allowed => ?_
      exact (related.takeOut allowed).release
  | initListHead list => exact changed_matched taken fun _ => initialise_does related
  | listAdd new head => exact changed_matched taken fun _ => listAdd_does related
  | listAddTail new head => exact changed_matched taken fun _ => listAddTail_does related
  | listDel entry => exact changed_matched taken fun _ => listDel_represents related
  | listDelInit entry => exact changed_matched taken fun _ => listDelInit_does related
  | listReplace old new => exact changed_matched taken fun _ => listReplace_represents related
  | listReplaceInit old new => exact changed_matched taken fun _ => listReplaceInit_does related
  | listMove list head => exact changed_matched taken fun _ => listMove_does related
  | listMoveTail list head => exact changed_matched taken fun _ => listMoveTail_does related
  | listRotateLeft head => exact changed_matched taken fun _ => listRotateLeft_does related
  | listCutPosition list head entry => exact changed_matched taken fun _ => listCutPosition_does related
  | listSplice list head => exact changed_matched taken fun _ => listSplice_does related
  | listSpliceTail list head => exact changed_matched taken fun _ => listSpliceTail_does related
  | listSpliceInit list head => exact changed_matched taken fun _ => listSpliceInit_does related
  | listSpliceTailInit list head => exact changed_matched taken fun _ => listSpliceTailInit_does related
  | listIsLast list head =>
      obtain ⟨entries, listed, allowed⟩ := Option.bind_eq_some_iff.mp taken
      obtain ⟨inside, same⟩ := Option.ite_none_right_eq_some.mp allowed
      cases same
      obtain ⟨rest, opened⟩ := related.listed listed
      exact ⟨heap, by rw [perform, asked, listIsLast_represents opened inside, Option.map_some], related⟩
  | listEmpty head => exact asked_matched related taken (related.tells fun _ _ => listEmpty_represents)
  | listEmptyCareful head => exact asked_matched related taken (related.tells fun _ _ => listEmptyCareful_represents)
  | listIsSingular head => exact asked_matched related taken (related.tells fun _ _ => listIsSingular_represents)
  | listFirstEntryOrNull head => exact asked_matched related taken (related.tells fun _ _ => listFirstEntryOrNull_represents)
  | listForEach head => exact asked_matched related taken (related.tells fun _ _ => listForEach_represents)
  | listForEachPrev head => exact asked_matched related taken (related.tells fun _ _ => listForEachPrev_represents)

section Back

variable {list : Address} {front back loose : List Address} {rest : List (Address × List Address)}

/-- In which order the lists are told does not matter. -/
theorem swap_lists {one two : Address × List Address}
    (related : Represents heap { lists := one :: two :: rest, loose := loose }) :
    Represents heap { lists := two :: one :: rest, loose := loose } :=
  related.rearrange ((cells_perm (List.Perm.swap ..)).append_right loose) fun _ inside =>
    (List.Perm.swap ..).mem_iff.mp inside

theorem splice_nothing (related : Represents heap { lists := (list, []) :: (head, nodes) :: rest, loose := loose }) :
    listSpliceInit list head heap = some heap := by
  rw [listSpliceInit, listEmpty_represents related]
  rfl

theorem splice_front (related : Represents heap { lists := (list, front) :: (head, back) :: rest, loose := loose })
    (nonempty : front ≠ []) :
    ∃ after, listSpliceInit list head heap = some after ∧
      Represents after { lists := (list, []) :: (head, front ++ back) :: rest, loose := loose } := by
  refine listSpliceInit_does related ?_
  simp [spliceInto, Layout.listOf, Layout.splice, Layout.focus, Layout.headed, Layout.initialise, Layout.takeOut,
    atFront, nonempty]

/-- The entries that were cut off come back to where they were. -/
theorem cut_splice_represents
    (related : Represents heap { lists := (head, nodes) :: (list, []) :: rest, loose := loose })
    (member : entry ∈ head :: nodes) :
    ∃ middle after, listCutPosition list head entry heap = some middle ∧ listSpliceInit list head middle = some after ∧
      Represents after { lists := (head, nodes) :: (list, []) :: rest, loose := loose } := by
  have inside : list ∈ Circular.cells ((list, []) :: rest) := List.mem_cons_self
  have apart : head ≠ list := fun equal => related.outside List.mem_cons_self (equal ▸ inside)
  have absent : list ∉ loose := fun free =>
    related.loose_outside free (List.mem_append_right (head :: nodes) inside)
  have out : Layout.takeOut { lists := (head, nodes) :: (list, []) :: rest, loose := loose } list =
      some { lists := (head, nodes) :: rest, loose := loose } := by
    simp [Layout.takeOut, Layout.focus, Layout.headed, absent, apart]
  have listed : Layout.listOf { lists := (head, nodes) :: (list, []) :: rest, loose := loose } head = some nodes := by
    simp [Layout.listOf, Layout.focus, Layout.headed]
  by_cases none : nodes = []
  · have allowed : cutPosition { lists := (head, nodes) :: (list, []) :: rest, loose := loose } list head entry =
        some { lists := (head, nodes) :: (list, []) :: rest, loose := loose } := by
      rw [cutPosition, listed]
      exact if_pos (.inl none)
    obtain ⟨middle, cut, represents⟩ := listCutPosition_does related allowed
    exact ⟨middle, middle, cut, splice_nothing (swap_lists represents), represents⟩
  · by_cases isHead : entry = head
    · have allowed : cutPosition { lists := (head, nodes) :: (list, []) :: rest, loose := loose } list head entry =
          some { lists := (list, []) :: (head, nodes) :: rest, loose := loose } := by
        simp [cutPosition, listed, none, isHead, Layout.initialise, out]
      obtain ⟨middle, cut, represents⟩ := listCutPosition_does related allowed
      exact ⟨middle, middle, cut, splice_nothing represents, swap_lists represents⟩
    · have entered : entry ∈ nodes := (List.mem_cons.mp member).resolve_left isHead
      have allowed : cutPosition { lists := (head, nodes) :: (list, []) :: rest, loose := loose } list head entry =
          some { lists := (list, nodes.take (nodes.idxOf entry + 1)) :: (head, nodes.drop (nodes.idxOf entry + 1)) :: rest,
                 loose := loose } := by
        simp [cutPosition, listed, none, isHead, entered, Layout.cut, out, Layout.focus, Layout.headed]
      obtain ⟨middle, cut, represents⟩ := listCutPosition_does related allowed
      have nonempty : nodes.take (nodes.idxOf entry + 1) ≠ [] := by
        simp [none]
      obtain ⟨after, spliced, final⟩ := splice_front represents nonempty
      rw [List.take_append_drop] at final
      exact ⟨middle, after, cut, spliced, swap_lists final⟩

end Back

/-- Every run of calls that lists of entries allow is answered by the linked lists as by them. Afterwards
each list is a circle that can be walked both ways, no structure is in two places, and exactly the
structures in some place are alive. -/
theorem lists_refine {calls : List (Call β)} {answers : List Answer} {final : Layout Address}
    (performed : performAll step Layout.empty calls = some (final, answers)) :
    ∃ heap : Heap β, performAll perform (∅ : Heap β) calls = some (heap, answers) ∧
      final.cells.Nodup ∧ (∀ node, node ∈ heap ↔ node ∈ final.cells) ∧
      ∀ list ∈ final.lists, Circle heap.nextOf heap.prevOf list.1 list.2 ∧
        listForEach list.1 heap = .returned list.2 ∧ listForEachPrev list.1 heap = .returned list.2.reverse := by
  obtain ⟨heap, ran, related⟩ := perform_simulates.performAll represents_empty performed
  refine ⟨heap, ran, related.distinct, related.alive, fun list member => ?_⟩
  have perm : final.lists.Perm (list :: final.lists.erase list) := List.perm_cons_erase member
  have opened : Represents heap { lists := list :: final.lists.erase list, loose := final.loose } :=
    related.rearrange ((cells_perm perm.symm).append_right final.loose) fun ring inside => perm.mem_iff.mpr inside
  exact ⟨related.rings list member, opened.walk_next, opened.walk_prev⟩

theorem lists_refine_cut_and_spliced :
    ∃ heap : Heap Nat, performAll perform (∅ : Heap Nat)
        [.malloc 1 0, .initListHead 1, .malloc 2 0, .initListHead 2, .malloc 5 7, .listAddTail 5 1, .malloc 6 8,
          .listAddTail 6 1, .malloc 7 9, .listAdd 7 1, .listCutPosition 2 1 5, .malloc 8 4, .listReplaceInit 6 8,
          .listForEach 2, .listSpliceTailInit 2 1, .listForEach 1] =
        some (heap, [.done, .done, .done, .done, .done, .done, .done, .done, .done, .done, .done, .done, .done,
          .entries [7, 5], .done, .entries [8, 7, 5]]) ∧
      listForEachPrev 1 heap = .returned [5, 7, 8] := by
  have performed : performAll (step (β := Nat)) Layout.empty
      [.malloc 1 0, .initListHead 1, .malloc 2 0, .initListHead 2, .malloc 5 7, .listAddTail 5 1, .malloc 6 8,
        .listAddTail 6 1, .malloc 7 9, .listAdd 7 1, .listCutPosition 2 1 5, .malloc 8 4, .listReplaceInit 6 8,
        .listForEach 2, .listSpliceTailInit 2 1, .listForEach 1] =
      some ({ lists := [(2, []), (1, [8, 7, 5]), (6, [])], loose := [] },
        [.done, .done, .done, .done, .done, .done, .done, .done, .done, .done, .done, .done, .done,
          .entries [7, 5], .done, .entries [8, 7, 5]]) := by decide
  obtain ⟨heap, ran, -, -, walks⟩ := lists_refine performed
  exact ⟨heap, ran, (walks (1, [8, 7, 5]) (by decide)).2.2⟩

/-- After any run: what `list_cut_position` moves to another head comes back with `list_splice_init`, and every
link of every list is as it was. -/
theorem cut_spliced_back {calls : List (Call β)} {answers : List Answer} {final : Layout Address}
    (performed : performAll step Layout.empty calls = some (final, answers)) {list : Address}
    (listed : (head, nodes) ∈ final.lists) (own : (list, []) ∈ final.lists) (apart : list ≠ head)
    (member : entry ∈ head :: nodes) :
    ∃ heap middle after : Heap β, performAll perform (∅ : Heap β) calls = some (heap, answers) ∧
      listCutPosition list head entry heap = some middle ∧ listSpliceInit list head middle = some after ∧
      ∀ ring ∈ final.lists, ∀ node ∈ ring.1 :: ring.2,
        after.nextOf node = heap.nextOf node ∧ after.prevOf node = heap.prevOf node := by
  obtain ⟨heap, ran, related⟩ := perform_simulates.performAll represents_empty performed
  have differs : ((list, []) : Address × List Address) ≠ (head, nodes) := fun same => apart (Prod.mk.inj same).1
  have perm : final.lists.Perm ((head, nodes) :: (list, []) :: (final.lists.erase (head, nodes)).erase (list, [])) :=
    (List.perm_cons_erase listed).trans ((List.perm_cons_erase ((List.mem_erase_of_ne differs).mpr own)).cons _)
  have opened : Represents heap { lists := (head, nodes) :: (list, []) :: (final.lists.erase (head, nodes)).erase (list, []),
                                  loose := final.loose } :=
    related.rearrange ((cells_perm perm.symm).append_right final.loose) fun ring inside => perm.mem_iff.mpr inside
  obtain ⟨middle, after, cut, spliced, represents⟩ := cut_splice_represents opened member
  refine ⟨heap, middle, after, ran, cut, spliced, fun ring inside => ?_⟩
  exact (related.rings ring inside).links (represents.rings ring (perm.mem_iff.mp inside))

theorem cut_spliced_back_half :
    ∃ heap middle after : Heap Nat, performAll perform (∅ : Heap Nat)
        [.malloc 1 0, .initListHead 1, .malloc 2 0, .initListHead 2, .malloc 5 7, .listAddTail 5 1, .malloc 6 8,
          .listAddTail 6 1, .malloc 7 9, .listAddTail 7 1] =
        some (heap, [.done, .done, .done, .done, .done, .done, .done, .done, .done, .done]) ∧
      listCutPosition 2 1 6 heap = some middle ∧ listSpliceInit 2 1 middle = some after ∧
      after.nextOf 6 = heap.nextOf 6 := by
  have performed : performAll (step (β := Nat)) Layout.empty
      [.malloc 1 0, .initListHead 1, .malloc 2 0, .initListHead 2, .malloc 5 7, .listAddTail 5 1, .malloc 6 8,
        .listAddTail 6 1, .malloc 7 9, .listAddTail 7 1] =
      some ({ lists := [(1, [5, 6, 7]), (2, [])], loose := [] },
        [.done, .done, .done, .done, .done, .done, .done, .done, .done, .done]) := by decide
  have listed : ((1, [5, 6, 7]) : Address × List Address) ∈ [(1, [5, 6, 7]), (2, [])] := by decide
  have own : ((2, []) : Address × List Address) ∈ [(1, [5, 6, 7]), (2, [])] := by decide
  have member : (6 : Address) ∈ [1, 5, 6, 7] := by decide
  obtain ⟨heap, middle, after, ran, cut, spliced, same⟩ := cut_spliced_back performed listed own (by decide) member
  exact ⟨heap, middle, after, ran, cut, spliced, (same (1, [5, 6, 7]) (by decide) 6 (by decide)).1⟩

end Dwadelib.KernelList
