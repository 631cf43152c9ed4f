import Dwadelib.Linked.Walk
import Dwadelib.Simulation

namespace Dwadelib.KernelList

/-! # The kernel's linked lists

A `struct list_head` is embedded in another structure; it is named by its address, and so is the structure
around it. What is done with an address at which nothing is alive, or with a link that was never set, is
undefined.
-/

open Simulation

abbrev Address := Nat

abbrev Heap (β : Type) := Linked.Heap Address β

/-- Addresses at which nothing ever is. -/
def listPoison1 : Address := 0x00100100

def listPoison2 : Address := 0x00200200

variable {β : Type}

def initListHead (list : Address) (heap : Heap β) : Option (Heap β) := do
  let heap ← heap.setNext list list
  heap.setPrev list list

/-- `__list_add`; the functions whose names begin with `__` are the internal ones. -/
def internalListAdd (new prev next : Address) (heap : Heap β) : Option (Heap β) := do
  let heap ← heap.setPrev next new
  let heap ← heap.setNext new next
  let heap ← heap.setPrev new prev
  heap.setNext prev new

def listAdd (new head : Address) (heap : Heap β) : Option (Heap β) := do
  let next ← heap.nextOf head
  internalListAdd new head next heap

def listAddTail (new head : Address) (heap : Heap β) : Option (Heap β) := do
  let prev ← heap.prevOf head
  internalListAdd new prev head heap

def internalListDel (prev next : Address) (heap : Heap β) : Option (Heap β) := do
  let heap ← heap.setPrev next prev
  heap.setNext prev next

def internalListDelEntry (entry : Address) (heap : Heap β) : Option (Heap β) := do
  let prev ← heap.prevOf entry
  let next ← heap.nextOf entry
  internalListDel prev next heap

def listDel (entry : Address) (heap : Heap β) : Option (Heap β) := do
  let prev ← heap.prevOf entry
  let next ← heap.nextOf entry
  let heap ← internalListDel prev next heap
  let heap ← heap.setNext entry listPoison1
  heap.setPrev entry listPoison2

/-- Every field is read when it is used: with an empty list the write to `new->next->prev` changes
`old->prev`, which is read after it. -/
def listReplace (old new : Address) (heap : Heap β) : Option (Heap β) := do
  let next ← heap.nextOf old
  let heap ← heap.setNext new next
  let next ← heap.nextOf new
  let heap ← heap.setPrev next new
  let prev ← heap.prevOf old
  let heap ← heap.setPrev new prev
  let prev ← heap.prevOf new
  heap.setNext prev new

def listReplaceInit (old new : Address) (heap : Heap β) : Option (Heap β) := do
  let heap ← listReplace old new heap
  initListHead old heap

def listDelInit (entry : Address) (heap : Heap β) : Option (Heap β) := do
  let heap ← internalListDelEntry entry heap
  initListHead entry heap

def listMove (list head : Address) (heap : Heap β) : Option (Heap β) := do
  let heap ← internalListDelEntry list heap
  listAdd list head heap

def listMoveTail (list head : Address) (heap : Heap β) : Option (Heap β) := do
  let heap ← internalListDelEntry list heap
  listAddTail list head heap

def listIsLast (list head : Address) (heap : Heap β) : Option Bool := do
  let next ← heap.nextOf list
  some (next = head)

def listEmpty (head : Address) (heap : Heap β) : Option Bool := do
  let next ← heap.nextOf head
  some (next = head)

def listEmptyCareful (head : Address) (heap : Heap β) : Option Bool := do
  let next ← heap.nextOf head
  if next = head then
    let prev ← heap.prevOf head
    some (next = prev)
  else some false

def listRotateLeft (head : Address) (heap : Heap β) : Option (Heap β) := do
  if ← listEmpty head heap then some heap
  else
    let first ← heap.nextOf head
    listMoveTail first head heap

def listIsSingular (head : Address) (heap : Heap β) : Option Bool := do
  if ← listEmpty head heap then some false
  else
    let next ← heap.nextOf head
    let prev ← heap.prevOf head
    some (next = prev)

def internalListCutPosition (list head entry : Address) (heap : Heap β) : Option (Heap β) := do
  let newFirst ← heap.nextOf entry
  let first ← heap.nextOf head
  let heap ← heap.setNext list first
  let first ← heap.nextOf list
  let heap ← heap.setPrev first list
  let heap ← heap.setPrev list entry
  let heap ← heap.setNext entry list
  let heap ← heap.setNext head newFirst
  heap.setPrev newFirst head

/-- Nothing is done to a list of one entry when it is another entry that is given. -/
def listCutPosition (list head entry : Address) (heap : Heap β) : Option (Heap β) := do
  if ← listEmpty head heap then some heap
  else
    let singular ← listIsSingular head heap
    let next ← heap.nextOf head
    if singular ∧ next ≠ entry ∧ head ≠ entry then some heap
    else if entry = head then initListHead list heap
    else internalListCutPosition list head entry heap

def internalListSplice (list prev next : Address) (heap : Heap β) : Option (Heap β) := do
  let first ← heap.nextOf list
  let last ← heap.prevOf list
  let heap ← heap.setPrev first prev
  let heap ← heap.setNext prev first
  let heap ← heap.setNext last next
  heap.setPrev next last

def listSplice (list head : Address) (heap : Heap β) : Option (Heap β) := do
  if ← listEmpty list heap then some heap
  else
    let next ← heap.nextOf head
    internalListSplice list head next heap

def listSpliceTail (list head : Address) (heap : Heap β) : Option (Heap β) := do
  if ← listEmpty list heap then some heap
  else
    let prev ← heap.prevOf head
    internalListSplice list prev head heap

def listSpliceInit (list head : Address) (heap : Heap β) : Option (Heap β) := do
  if ← listEmpty list heap then some heap
  else
    let next ← heap.nextOf head
    let heap ← internalListSplice list head next heap
    initListHead list heap

def listSpliceTailInit (list head : Address) (heap : Heap β) : Option (Heap β) := do
  if ← listEmpty list heap then some heap
  else
    let prev ← heap.prevOf head
    let heap ← internalListSplice list prev head heap
    initListHead list heap

/-- The first entry, a null pointer for an empty list. -/
def listFirstEntryOrNull (head : Address) (heap : Heap β) : Option (Option Address) := do
  if ← listEmpty head heap then some none
  else
    let next ← heap.nextOf head
    some (some next)

/-- The entries met by `list_for_each`. -/
def listForEach (head : Address) (heap : Heap β) : Outcome (List Address) := Linked.walk heap head heap.nextOf

def listForEachPrev (head : Address) (heap : Heap β) : Outcome (List Address) := Linked.walk heap head heap.prevOf

/-- The variables of a `list_for_each_safe` and the heap. -/
structure Removal (β : Type) where
  pos : Address
  n : Address
  heap : Heap β

/-- One round of `list_for_each_safe`; the next entry was read before the body ran. -/
def safeRound (head : Address) (body : Address → Heap β → Option (Heap β)) (state : Removal β) :
    Outcome (Iteration (Removal β) (Heap β)) := do
  if state.pos = head then return .stop state.heap
  else
    let heap ← .ofOption (body state.pos state.heap)
    let n ← .ofOption (heap.nextOf state.n)
    return .next { pos := state.n, n := n, heap := heap }

def listForEachSafe (head : Address) (body : Address → Heap β → Option (Heap β)) (heap : Heap β) :
    Outcome (Heap β) := do
  let pos ← .ofOption (heap.nextOf head)
  let n ← .ofOption (heap.nextOf pos)
  whileLoop (safeRound head body) (heap.keys.length + 1) { pos := pos, n := n, heap := heap }

/-- The calls of a program, which allocates the structures and frees them. -/
inductive Call (β : Type) where
  | malloc (node : Address) (held : β)
  | free (node : Address)
  | initListHead (list : Address)
  | listAdd (new head : Address)
  | listAddTail (new head : Address)
  | listDel (entry : Address)
  | listDelInit (entry : Address)
  | listReplace (old new : Address)
  | listReplaceInit (old new : Address)
  | listMove (list head : Address)
  | listMoveTail (list head : Address)
  | listRotateLeft (head : Address)
  | listCutPosition (list head entry : Address)
  | listSplice (list head : Address)
  | listSpliceTail (list head : Address)
  | listSpliceInit (list head : Address)
  | listSpliceTailInit (list head : Address)
  | listIsLast (list head : Address)
  | listEmpty (head : Address)
  | listEmptyCareful (head : Address)
  | listIsSingular (head : Address)
  | listFirstEntryOrNull (head : Address)
  | listForEach (head : Address)
  | listForEachPrev (head : Address)
  deriving DecidableEq, Repr

inductive Answer where
  | done
  | truth (value : Bool)
  | entry (node : Option Address)
  | entries (nodes : List Address)
  deriving DecidableEq, Repr

def perform (heap : Heap β) : Call β → Option (Heap β × Answer)
  | .malloc node held => changed .done (heap.allocate node held)
  | .free node => changed .done (heap.free node)
  | .initListHead list => changed .done (initListHead list heap)
  | .listAdd new head => changed .done (listAdd new head heap)
  | .listAddTail new head => changed .done (listAddTail new head heap)
  | .listDel entry => changed .done (listDel entry heap)
  | .listDelInit entry => changed .done (listDelInit entry heap)
  | .listReplace old new => changed .done (listReplace old new heap)
  | .listReplaceInit old new => changed .done (listReplaceInit old new heap)
  | .listMove list head => changed .done (listMove list head heap)
  | .listMoveTail list head => changed .done (listMoveTail list head heap)
  | .listRotateLeft head => changed .done (listRotateLeft head heap)
  | .listCutPosition list head entry => changed .done (listCutPosition list head entry heap)
  | .listSplice list head => changed .done (listSplice list head heap)
  | .listSpliceTail list head => changed .done (listSpliceTail list head heap)
  | .listSpliceInit list head => changed .done (listSpliceInit list head heap)
  | .listSpliceTailInit list head => changed .done (listSpliceTailInit list head heap)
  | .listIsLast list head => asked heap .truth (listIsLast list head heap)
  | .listEmpty head => asked heap .truth (listEmpty head heap)
  | .listEmptyCareful head => asked heap .truth (listEmptyCareful head heap)
  | .listIsSingular head => asked heap .truth (listIsSingular head heap)
  | .listFirstEntryOrNull head => asked heap .entry (listFirstEntryOrNull head heap)
  | .listForEach head => asked heap .entries (listForEach head heap).toOption
  | .listForEachPrev head => asked heap .entries (listForEachPrev head heap).toOption

end Dwadelib.KernelList
