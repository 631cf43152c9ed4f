import Dwadelib.Circular.Rings
import Dwadelib.Linked
import Mathlib.Data.List.Perm.Basic

namespace Dwadelib

/-! # Lists of linked cells

What cells with two links are for: lists, each behind a head that is a cell as well, and cells in no list.
Every cell is in one place only. The rules say how a heap that stands for such a layout stands for another
one when its links are changed.
-/

namespace Linked

open Circular

variable {α β : Type} [DecidableEq α]

/-- Lists with their heads, and the cells that are alive and in no list. -/
structure Layout (α : Type) where
  lists : List (α × List α)
  loose : List α
  deriving DecidableEq, Repr

namespace Layout

def empty : Layout α := { lists := [], loose := [] }

def cells (layout : Layout α) : List α := Circular.cells layout.lists ++ layout.loose

/-- The first list with a property, and the other lists. -/
def focus (property : α × List α → Bool) (layout : Layout α) : Option ((α × List α) × List (α × List α)) :=
  (layout.lists.find? property).map fun ring => (ring, layout.lists.eraseP property)

def headed (head : α) (ring : α × List α) : Bool := ring.1 = head

def holding (entry : α) (ring : α × List α) : Bool := entry ∈ ring.2

/-- The entries behind this head. -/
def listOf (layout : Layout α) (head : α) : Option (List α) := (layout.focus (headed head)).map fun found => found.1.2

/-- A cell is taken out to be used in another place; the entries behind a head that is taken out are in no list. -/
def takeOut (layout : Layout α) (node : α) : Option (Layout α) :=
  if node ∈ layout.loose then some { layout with loose := layout.loose.erase node }
  else (layout.focus (headed node)).map fun found => { lists := found.2, loose := found.1.2 ++ layout.loose }

def create (layout : Layout α) (node : α) : Option (Layout α) :=
  if node ∈ layout.cells then none else some { layout with loose := node :: layout.loose }

/-- The cell becomes the head of an empty list. -/
def initialise (layout : Layout α) (list : α) : Option (Layout α) := do
  let out ← layout.takeOut list
  some { out with lists := (list, []) :: out.lists }

/-- The cell becomes an entry behind a number of first entries. -/
def insert (layout : Layout α) (new head : α) (place : List α → Nat) : Option (Layout α) := do
  let out ← layout.takeOut new
  let found ← out.focus (headed head)
  let entries := found.1.2
  some { out with lists := (head, entries.take (place entries) ++ new :: entries.drop (place entries)) :: found.2 }

/-- The cell comes behind another one, which is an entry or a head. -/
def insertBehind (layout : Layout α) (new place : α) : Option (Layout α) := do
  let out ← layout.takeOut new
  let found ← out.focus fun ring => place ∈ ring.1 :: ring.2
  let count := (found.1.1 :: found.1.2).idxOf place
  some { out with lists := (found.1.1, found.1.2.take count ++ new :: found.1.2.drop count) :: found.2 }

/-- The cell comes before another one; before the head it is the last entry. -/
def insertBefore (layout : Layout α) (new place : α) : Option (Layout α) := do
  let out ← layout.takeOut new
  let found ← out.focus fun ring => place ∈ ring.1 :: ring.2
  let count := found.1.2.idxOf place
  some { out with lists := (found.1.1, found.1.2.take count ++ new :: found.1.2.drop count) :: found.2 }

/-- An entry leaves its list; a head without entries is its own list and leaves that. -/
def unlink (layout : Layout α) (entry : α) : Option (Layout α) :=
  match layout.focus (holding entry) with
  | some found =>
      some { lists := (found.1.1, found.1.2.erase entry) :: found.2, loose := entry :: layout.loose }
  | none => (layout.focus fun ring => ring = (entry, [])).map fun found =>
      { lists := found.2, loose := entry :: layout.loose }

/-- An entry or a head is replaced by another cell. -/
def replace (layout : Layout α) (old new : α) : Option (Layout α) := do
  let out ← layout.takeOut new
  match out.focus (holding old) with
  | some found =>
      some { lists := (found.1.1, found.1.2.replace old new) :: found.2, loose := old :: out.loose }
  | none =>
      let found ← out.focus (headed old)
      some { lists := (new, found.1.2) :: found.2, loose := old :: out.loose }

/-- The entries up to this one become the ones of another head. -/
def cut (layout : Layout α) (list head entry : α) : Option (Layout α) := do
  let out ← layout.takeOut list
  let found ← out.focus (headed head)
  let entries := found.1.2
  let count := entries.idxOf entry + 1
  if entry ∈ entries then
    some { out with lists := (list, entries.take count) :: (head, entries.drop count) :: found.2 }
  else none

/-- The entries of one list come into another one behind a number of first entries. -/
def splice (layout : Layout α) (list head : α) (place : List α → Nat) : Option (Layout α) := do
  let inner ← layout.focus (headed list)
  let found ← { layout with lists := inner.2 }.focus (headed head)
  let entries := found.1.2
  if inner.1.2 = [] then none
  else
    some {
      lists := (head, entries.take (place entries) ++ (inner.1.2 ++ entries.drop (place entries))) :: found.2
      loose := list :: layout.loose }

end Layout

variable {heap after : Heap α β} {layout out other : Layout α} {node new old head list entry : α}
  {before behind nodes loose : List α} {ring : α × List α} {rest lists : List (α × List α)}
  {next prev : α → Option α} {place : List α → Nat} {found : (α × List α) × List (α × List α)}

omit [DecidableEq α] in
theorem focus_eq_some {property : α × List α → Bool} (focused : layout.focus property = some found) :
    layout.lists.Perm (found.1 :: found.2) ∧ property found.1 := by
  obtain ⟨ring, search, rfl⟩ := Option.map_eq_some_iff.mp focused
  have holds := List.find?_some search
  obtain ⟨-, front, back, split, earlier⟩ := List.find?_eq_some_iff_append.mp search
  refine ⟨?_, holds⟩
  have misses : ∀ ring ∈ front, ¬ property ring := by simpa using earlier
  rw [split, List.eraseP_append_right _ misses, List.eraseP_cons_of_pos holds]
  exact List.perm_middle

omit [DecidableEq α] in
theorem cells_focused (loose : List α) (perm : lists.Perm (ring :: rest)) :
    (Layout.mk lists loose).cells.Perm (ring.1 :: (ring.2 ++ (Circular.cells rest ++ loose))) := by
  have outer := (cells_perm perm).append_right loose
  rwa [cells_cons, List.cons_append, List.append_assoc] at outer

theorem takeOut_eq_some (taken : layout.takeOut node = some out) :
    layout.cells.Perm (node :: out.cells) ∧ ∀ ring ∈ out.lists, ring ∈ layout.lists := by
  unfold Layout.takeOut at taken
  split at taken
  · rename_i member
    cases taken
    refine ⟨?_, fun ring inside => inside⟩
    exact ((List.perm_cons_erase member).append_left _).trans List.perm_middle
  · obtain ⟨found, focused, rfl⟩ := Option.map_eq_some_iff.mp taken
    obtain ⟨perm, isHead⟩ := focus_eq_some focused
    refine ⟨?_, fun ring inside => perm.mem_iff.mpr (List.mem_cons_of_mem _ inside)⟩
    have same : found.1.1 = node := of_decide_eq_true isHead
    have whole := cells_focused layout.loose perm
    rw [same] at whole
    refine whole.trans (List.Perm.cons node ?_)
    have moved : (found.1.2 ++ (Circular.cells found.2 ++ layout.loose)).Perm
        (Circular.cells found.2 ++ (found.1.2 ++ layout.loose)) := by
      rw [← List.append_assoc, ← List.append_assoc]
      exact List.perm_append_comm.append_right layout.loose
    exact moved

/-- The heap holds these lists, and no structure is alive beside their cells and the loose ones. -/
structure Represents (heap : Heap α β) (layout : Layout α) : Prop where
  distinct : layout.cells.Nodup
  alive : ∀ node, node ∈ heap ↔ node ∈ layout.cells
  rings : Rings heap.nextOf heap.prevOf layout.lists

theorem represents_empty : Represents (∅ : Heap α β) Layout.empty := by
  refine ⟨List.nodup_nil, fun node => ?_, fun ring member => ?_⟩
  · exact iff_of_false (AList.notMem_empty node) List.not_mem_nil
  · contradiction

/-- The cells keep their number, the lists are the circles of the new links. -/
theorem Represents.relink (related : Represents heap layout) (relinked : Relinked heap after next prev)
    (perm : other.cells.Perm layout.cells) (rings : Rings next prev other.lists) : Represents after other := by
  refine ⟨perm.nodup_iff.mpr related.distinct, fun node => ?_, ?_⟩
  · rw [relinked.mem, related.alive, perm.mem_iff]
  · rw [relinked.next, relinked.prev]
    exact rings

theorem Represents.rearrange (related : Represents heap layout) (perm : other.cells.Perm layout.cells)
    (kept : ∀ ring ∈ other.lists, ring ∈ layout.lists) : Represents heap other :=
  related.relink (.refl heap) perm fun ring member => related.rings ring (kept ring member)

theorem Represents.focus {property : α × List α → Bool} (related : Represents heap layout)
    (focused : layout.focus property = some found) :
    Represents heap { lists := found.1 :: found.2, loose := layout.loose } := by
  obtain ⟨perm, -⟩ := focus_eq_some focused
  exact related.rearrange ((cells_perm perm.symm).append_right layout.loose) fun ring member => perm.mem_iff.mpr member

theorem Represents.takeOut (related : Represents heap layout) (taken : layout.takeOut node = some out) :
    Represents heap { lists := out.lists, loose := node :: out.loose } := by
  obtain ⟨perm, kept⟩ := takeOut_eq_some taken
  exact related.rearrange (List.perm_middle.trans perm.symm) kept

section Apart

variable (related : Represents heap { lists := ring :: rest, loose := loose })
include related

theorem Represents.circle : Circle heap.nextOf heap.prevOf ring.1 ring.2 := (rings_cons.mp related.rings).1

theorem Represents.others : Rings heap.nextOf heap.prevOf rest := (rings_cons.mp related.rings).2

theorem Represents.live (member : node ∈ ring.1 :: ring.2) : node ∈ heap :=
  (related.alive node).mpr (List.mem_append_left _ (List.mem_append_left _ member))

theorem Represents.outside (member : node ∈ ring.1 :: ring.2) : node ∉ Circular.cells rest := by
  obtain ⟨listed, -, -⟩ := List.nodup_append.mp related.distinct
  obtain ⟨-, -, apart⟩ := List.nodup_append.mp (show ((ring.1 :: ring.2) ++ Circular.cells rest).Nodup from listed)
  exact fun inside => apart node member node inside rfl

end Apart

section Loose

variable (related : Represents heap layout) (member : node ∈ layout.loose)
include related member

theorem Represents.live_loose : node ∈ heap := (related.alive node).mpr (List.mem_append_right _ member)

theorem Represents.loose_outside : node ∉ Circular.cells layout.lists := fun inside =>
  (List.nodup_append.mp related.distinct).2.2 node inside node member rfl

end Loose

-- A heap that stands for a layout is seen with the cells that are changed in front.
section Opened

variable (related : Represents heap layout)
include related

theorem Represents.listed (allowed : layout.listOf head = some nodes) :
    ∃ rest, Represents heap { lists := (head, nodes) :: rest, loose := layout.loose } := by
  obtain ⟨found, focused, rfl⟩ := Option.map_eq_some_iff.mp allowed
  have isHead : found.1.1 = head := of_decide_eq_true (focus_eq_some focused).2
  have opened := related.focus focused
  subst isHead
  exact ⟨found.2, opened⟩

/-- A question that is answered from the entries behind a head. -/
theorem Represents.tells {γ ρ : Type} {asking : Option γ} {meaning : List α → γ} {answerOf : γ → ρ}
    (answers : ∀ entries rest, Represents heap { lists := (head, entries) :: rest, loose := layout.loose } →
      asking = some (meaning entries)) :
    ∀ entries, layout.listOf head = some entries →
      ∃ value, asking = some value ∧ answerOf value = answerOf (meaning entries) := by
  intro entries allowed
  obtain ⟨rest, opened⟩ := related.listed allowed
  exact ⟨_, answers entries rest opened, rfl⟩

theorem Represents.initialised (allowed : layout.initialise list = some other) :
    ∃ lists loose, Represents heap { lists := lists, loose := list :: loose } ∧
      other = { lists := (list, []) :: lists, loose := loose } := by
  obtain ⟨out, taken, same⟩ := Option.bind_eq_some_iff.mp allowed
  cases same
  exact ⟨out.lists, out.loose, related.takeOut taken, rfl⟩

theorem Represents.inserted (allowed : layout.insert new head place = some other) :
    ∃ entries rest loose, Represents heap { lists := (head, entries) :: rest, loose := new :: loose } ∧
      other = { lists := (head, entries.take (place entries) ++ new :: entries.drop (place entries)) :: rest,
                loose := loose } := by
  obtain ⟨out, taken, allowed⟩ := Option.bind_eq_some_iff.mp allowed
  obtain ⟨found, focused, same⟩ := Option.bind_eq_some_iff.mp allowed
  cases same
  have isHead : found.1.1 = head := of_decide_eq_true (focus_eq_some focused).2
  have opened := (related.takeOut taken).focus focused
  subst isHead
  exact ⟨found.1.2, found.2, out.loose, opened, rfl⟩

omit related in
/-- What comes before the place behind a cell ends with it. -/
theorem getLastD_take_idxOf {place : α} (member : place ∈ head :: nodes) :
    (nodes.take ((head :: nodes).idxOf place)).getLastD head = place := by
  have count := List.idxOf_lt_length_of_mem member
  have found := List.getElem_idxOf count
  generalize (head :: nodes).idxOf place = index at count found
  cases index with
  | zero => exact found
  | succ index =>
      rw [List.length_cons] at count
      have inside : index < nodes.length := by omega
      rw [List.take_succ_eq_append_getElem inside, List.getLastD_concat]
      exact found

omit related in
/-- What comes behind the place before a cell begins with it. -/
theorem headD_drop_idxOf {place : α} (member : place ∈ head :: nodes) :
    (nodes.drop (nodes.idxOf place)).headD head = place := by
  by_cases inside : place ∈ nodes
  · have count := List.idxOf_lt_length_of_mem inside
    rw [List.drop_eq_getElem_cons count, List.headD_cons, List.getElem_idxOf]
  · have isHead := (List.mem_cons.mp member).resolve_right inside
    rw [List.idxOf_eq_length inside, List.drop_length, List.headD_nil, isHead]

theorem Represents.insertedBehind {place : α} (allowed : layout.insertBehind new place = some other) :
    ∃ head before behind rest loose, Represents heap { lists := (head, before ++ behind) :: rest, loose := new :: loose } ∧
      before.getLastD head = place ∧
      other = { lists := (head, before ++ new :: behind) :: rest, loose := loose } := by
  obtain ⟨out, taken, allowed⟩ := Option.bind_eq_some_iff.mp allowed
  obtain ⟨found, focused, same⟩ := Option.bind_eq_some_iff.mp allowed
  cases same
  have member : place ∈ found.1.1 :: found.1.2 := of_decide_eq_true (focus_eq_some focused).2
  have opened := (related.takeOut taken).focus focused
  refine ⟨found.1.1, _, _, found.2, out.loose, ?_, ?_, rfl⟩
  · rw [List.take_append_drop]
    exact opened
  · exact getLastD_take_idxOf member

theorem Represents.insertedBefore {place : α} (allowed : layout.insertBefore new place = some other) :
    ∃ head before behind rest loose, Represents heap { lists := (head, before ++ behind) :: rest, loose := new :: loose } ∧
      behind.headD head = place ∧
      other = { lists := (head, before ++ new :: behind) :: rest, loose := loose } := by
  obtain ⟨out, taken, allowed⟩ := Option.bind_eq_some_iff.mp allowed
  obtain ⟨found, focused, same⟩ := Option.bind_eq_some_iff.mp allowed
  cases same
  have member : place ∈ found.1.1 :: found.1.2 := of_decide_eq_true (focus_eq_some focused).2
  have opened := (related.takeOut taken).focus focused
  refine ⟨found.1.1, _, _, found.2, out.loose, ?_, ?_, rfl⟩
  · rw [List.take_append_drop]
    exact opened
  · exact headD_drop_idxOf member

omit related in
theorem erase_between (distinct : (before ++ entry :: behind).Nodup) :
    (before ++ entry :: behind).erase entry = before ++ behind := by
  have absent : entry ∉ before := fun member =>
    (List.nodup_append.mp distinct).2.2 entry member entry List.mem_cons_self rfl
  rw [List.erase_append_right _ absent, List.erase_cons_head]

theorem Represents.unlinked (allowed : layout.unlink entry = some other) :
    (∃ head before behind rest,
      Represents heap { lists := (head, before ++ entry :: behind) :: rest, loose := layout.loose } ∧
      other = { lists := (head, before ++ behind) :: rest, loose := entry :: layout.loose }) ∨
    ∃ rest, Represents heap { lists := (entry, []) :: rest, loose := layout.loose } ∧
      other = { lists := rest, loose := entry :: layout.loose } := by
  unfold Layout.unlink at allowed
  split at allowed
  · rename_i found focused
    cases allowed
    have inside : entry ∈ found.1.2 := of_decide_eq_true (focus_eq_some focused).2
    have opened := related.focus focused
    obtain ⟨before, behind, split⟩ := List.append_of_mem inside
    have distinct := (List.nodup_cons.mp opened.circle.distinct).2
    rw [split] at distinct
    refine .inl ⟨found.1.1, before, behind, found.2, ?_, ?_⟩
    · rw [← split]
      exact opened
    · rw [split, erase_between distinct]
  · obtain ⟨found, focused, rfl⟩ := Option.map_eq_some_iff.mp allowed
    have isHead : found.1 = (entry, []) := of_decide_eq_true (focus_eq_some focused).2
    have opened := related.focus focused
    rw [isHead] at opened
    exact .inr ⟨found.2, opened, rfl⟩

omit related in
theorem replace_between (distinct : (before ++ old :: behind).Nodup) :
    (before ++ old :: behind).replace old new = before ++ new :: behind := by
  have absent : old ∉ before := fun member =>
    (List.nodup_append.mp distinct).2.2 old member old List.mem_cons_self rfl
  rw [List.replace_append_right absent, List.replace_cons_self]

theorem Represents.replaced (allowed : layout.replace old new = some other) :
    (∃ head before behind rest loose,
      Represents heap { lists := (head, before ++ old :: behind) :: rest, loose := new :: loose } ∧
      other = { lists := (head, before ++ new :: behind) :: rest, loose := old :: loose }) ∨
    ∃ entries rest loose, Represents heap { lists := (old, entries) :: rest, loose := new :: loose } ∧
      other = { lists := (new, entries) :: rest, loose := old :: loose } := by
  obtain ⟨out, taken, allowed⟩ := Option.bind_eq_some_iff.mp allowed
  have withNew := related.takeOut taken
  split at allowed
  · rename_i found focused
    cases allowed
    have inside : old ∈ found.1.2 := of_decide_eq_true (focus_eq_some focused).2
    have opened := withNew.focus focused
    obtain ⟨before, behind, split⟩ := List.append_of_mem inside
    have distinct := (List.nodup_cons.mp opened.circle.distinct).2
    rw [split] at distinct
    refine .inl ⟨found.1.1, before, behind, found.2, out.loose, ?_, ?_⟩
    · rw [← split]
      exact opened
    · rw [split, replace_between distinct]
  · obtain ⟨found, focused, same⟩ := Option.bind_eq_some_iff.mp allowed
    cases same
    have isHead : found.1.1 = old := of_decide_eq_true (focus_eq_some focused).2
    have opened := withNew.focus focused
    subst isHead
    exact .inr ⟨found.1.2, found.2, out.loose, opened, rfl⟩

theorem Represents.divided (allowed : layout.cut list head entry = some other) :
    ∃ front back rest loose, front ≠ [] ∧ front.getLastD list = entry ∧
      Represents heap { lists := (head, front ++ back) :: rest, loose := list :: loose } ∧
      other = { lists := (list, front) :: (head, back) :: rest, loose := loose } := by
  obtain ⟨out, taken, allowed⟩ := Option.bind_eq_some_iff.mp allowed
  obtain ⟨found, focused, allowed⟩ := Option.bind_eq_some_iff.mp allowed
  obtain ⟨inside, same⟩ := Option.ite_none_right_eq_some.mp allowed
  cases same
  have isHead : found.1.1 = head := of_decide_eq_true (focus_eq_some focused).2
  have opened := (related.takeOut taken).focus focused
  have place : found.1.2.idxOf entry < found.1.2.length := List.idxOf_lt_length_of_mem inside
  have last : found.1.2.take (found.1.2.idxOf entry + 1) = found.1.2.take (found.1.2.idxOf entry) ++ [entry] := by
    rw [List.take_succ_eq_append_getElem place, List.getElem_idxOf]
  subst isHead
  refine ⟨found.1.2.take (found.1.2.idxOf entry + 1), found.1.2.drop (found.1.2.idxOf entry + 1), found.2, out.loose,
    ?_, ?_, ?_, rfl⟩
  · rw [last]
    exact List.append_ne_nil_of_right_ne_nil _ (List.cons_ne_nil entry [])
  · rw [last, List.getLastD_concat]
  · rw [List.take_append_drop]
    exact opened

theorem Represents.spliced (allowed : layout.splice list head place = some other) :
    ∃ nodes entries rest, nodes ≠ [] ∧
      Represents heap { lists := (list, nodes) :: (head, entries) :: rest, loose := layout.loose } ∧
      other = { lists := (head, entries.take (place entries) ++ (nodes ++ entries.drop (place entries))) :: rest,
                loose := list :: layout.loose } := by
  obtain ⟨inner, focusedInner, allowed⟩ := Option.bind_eq_some_iff.mp allowed
  obtain ⟨found, focused, allowed⟩ := Option.bind_eq_some_iff.mp allowed
  obtain ⟨nonempty, same⟩ := Option.ite_none_left_eq_some.mp allowed
  cases same
  have isList : inner.1.1 = list := of_decide_eq_true (focus_eq_some focusedInner).2
  obtain ⟨perm, isHead⟩ := focus_eq_some focused
  have same : found.1.1 = head := of_decide_eq_true isHead
  have opened := related.focus focusedInner
  have both : Represents heap { lists := inner.1 :: found.1 :: found.2, loose := layout.loose } :=
    opened.rearrange ((cells_perm (perm.symm.cons inner.1)).append_right layout.loose)
      fun ring member => (perm.cons inner.1).mem_iff.mpr member
  subst isList same
  exact ⟨inner.1.2, found.1.2, found.2, nonempty, both, rfl⟩

end Opened

end Linked

end Dwadelib
