import Dwadelib.Ipc.CallbackList
import Dwadelib.Linked.Walk
import Dwadelib.Simulation

namespace Dwadelib.Ipc.NodeList

/-! # The linked lists of the two sides

A `struct list_node` is the head of a list or a part of a callback node, which is known by the address of its
`struct list_node`. What is done with an address at which nothing is alive, or with a link that was never set,
is undefined.
-/

open Simulation

abbrev Address := Nat

/-- What is held is the `cmd_id` of the callback node around a `struct list_node`; there is none around a head. -/
abbrev Heap := Linked.Heap Address (Option UInt32)

/-- Nothing is at this address. -/
def null : Address := 0

def cmdIdOf (heap : Heap) (node : Address) : Option UInt32 := (heap.heldOf node).join

def listInitialize (list : Address) (heap : Heap) : Option Heap := do
  let heap ← heap.setNext list list
  heap.setPrev list list

def listClearNode (item : Address) (heap : Heap) : Option Heap := do
  let heap ← heap.setNext item null
  heap.setPrev item null

def listInList (item : Address) (heap : Heap) : Option Bool := do
  let prev ← heap.prevOf item
  if prev = null then
    let next ← heap.nextOf item
    some (next ≠ null)
  else some true

/-- `list_add_after` is the same for an entry. -/
def listAddHead (list item : Address) (heap : Heap) : Option Heap := do
  let next ← heap.nextOf list
  let heap ← heap.setNext item next
  let heap ← heap.setPrev item list
  let next ← heap.nextOf list
  let heap ← heap.setPrev next item
  heap.setNext list item

/-- `list_add_before` is the same for an entry. -/
def listAddTail (list item : Address) (heap : Heap) : Option Heap := do
  let prev ← heap.prevOf list
  let heap ← heap.setPrev item prev
  let heap ← heap.setNext item list
  let prev ← heap.prevOf list
  let heap ← heap.setNext prev item
  heap.setPrev list item

def listDelete (item : Address) (heap : Heap) : Option Heap := do
  let next ← heap.nextOf item
  let prev ← heap.prevOf item
  let heap ← heap.setPrev next prev
  let prev ← heap.prevOf item
  let next ← heap.nextOf item
  let heap ← heap.setNext prev next
  listClearNode item heap

/-- `list_remove_head` with the first item, `list_remove_tail` with the last one: the heap and the item, a null
pointer for an empty list. -/
def removeEnd (link : Option Address) (list : Address) (heap : Heap) : Option (Heap × Option Address) := do
  let item ← link
  if item ≠ list then
    let heap ← listDelete item heap
    some (heap, some item)
  else some (heap, none)

def listRemoveHead (list : Address) (heap : Heap) : Option (Heap × Option Address) := removeEnd (heap.nextOf list) list heap

def listRemoveTail (list : Address) (heap : Heap) : Option (Heap × Option Address) := removeEnd (heap.prevOf list) list heap

/-- `list_next` is this with `next`, `list_prev` with `prev`; with the list as the item they are `list_peek_head`
and `list_peek_tail`. -/
def neighbour (link : Address → Option Address) (list item : Address) : Option (Option Address) := do
  let found ← link item
  some (if found ≠ list then some found else none)

/-- The same for `list_next_wrap` and `list_prev_wrap`. -/
def neighbourWrap (link : Address → Option Address) (list item : Address) : Option (Option Address) := do
  let found ← link item
  if found ≠ list then some (some found)
  else
    let wrapped ← link found
    some (if wrapped ≠ list then some wrapped else none)

def listPeekHead (list : Address) (heap : Heap) : Option (Option Address) := neighbour heap.nextOf list list

def listPeekTail (list : Address) (heap : Heap) : Option (Option Address) := neighbour heap.prevOf list list

def listPrev (list item : Address) (heap : Heap) : Option (Option Address) := neighbour heap.prevOf list item

def listPrevWrap (list item : Address) (heap : Heap) : Option (Option Address) := neighbourWrap heap.prevOf list item

def listNext (list item : Address) (heap : Heap) : Option (Option Address) := neighbour heap.nextOf list item

def listNextWrap (list item : Address) (heap : Heap) : Option (Option Address) := neighbourWrap heap.nextOf list item

def listIsEmpty (list : Address) (heap : Heap) : Option Bool := do
  let next ← heap.nextOf list
  some (next = list)

def listLength (list : Address) (heap : Heap) : Outcome Nat :=
  Linked.each heap list heap.nextOf (fun _ cnt => return .next (cnt + 1)) id 0

/-- The nodes that a `list_for_every` meets. -/
def listForEvery (list : Address) (heap : Heap) : Outcome (List Address) := Linked.walk heap list heap.nextOf

/-- Where a search ends: the variable `callback_node`, whether it was left by `break`, and the heap. -/
structure Searched where
  callbackNode : NodePointer
  hit : Bool
  heap : Heap

/-- The body of the search loop for one node; a response is taken off the list, a registration stays on it. -/
def searchBody (cmdId : UInt32) (remove : Bool) (heap : Heap) (node : Address) (_ : NodePointer) :
    Outcome (Iteration NodePointer Searched) := do
  let found ← .ofOption (cmdIdOf heap node)
  if found = cmdId then
    let after ← .ofOption (if remove then listDelete node heap else some heap)
    return .stop { callbackNode := .node node, hit := true, heap := after }
  else return .next (.node node)

def search (list : Address) (cmdId : UInt32) (remove : Bool) (callbackNode : NodePointer) (heap : Heap) :
    Outcome Searched :=
  Linked.each heap list heap.nextOf (searchBody cmdId remove heap)
    (fun callbackNode => { callbackNode := callbackNode, hit := false, heap := heap }) callbackNode

inductive Call where
  | malloc (node : Address) (cmdId : Option UInt32)
  | free (node : Address)
  | listInitialize (list : Address)
  | listClearNode (item : Address)
  | listInList (item : Address)
  | listAddHead (list item : Address)
  | listAddTail (list item : Address)
  | listDelete (item : Address)
  | listRemoveHead (list : Address)
  | listRemoveTail (list : Address)
  | listPeekHead (list : Address)
  | listPeekTail (list : Address)
  | listPrev (list item : Address)
  | listPrevWrap (list item : Address)
  | listNext (list item : Address)
  | listNextWrap (list item : Address)
  | listIsEmpty (list : Address)
  | listLength (list : Address)
  | listForEvery (list : Address)
  | search (list : Address) (cmdId : UInt32) (remove : Bool) (callbackNode : NodePointer)
  deriving DecidableEq, Repr

inductive Answer where
  | done
  | truth (value : Bool)
  | entry (node : Option Address)
  | count (cnt : Nat)
  | entries (nodes : List Address)
  | searched (callbackNode : NodePointer) (hit : Bool)
  deriving DecidableEq, Repr

def perform (heap : Heap) : Call → Option (Heap × Answer)
  | .malloc node cmdId => if node = null then none else changed .done (heap.allocate node cmdId)
  | .free node => changed .done (heap.free node)
  | .listInitialize list => changed .done (listInitialize list heap)
  | .listClearNode item => changed .done (listClearNode item heap)
  | .listInList item => asked heap .truth (listInList item heap)
  | .listAddHead list item => changed .done (listAddHead list item heap)
  | .listAddTail list item => changed .done (listAddTail list item heap)
  | .listDelete item => changed .done (listDelete item heap)
  | .listRemoveHead list => (listRemoveHead list heap).map fun removed => (removed.1, .entry removed.2)
  | .listRemoveTail list => (listRemoveTail list heap).map fun removed => (removed.1, .entry removed.2)
  | .listPeekHead list => asked heap .entry (listPeekHead list heap)
  | .listPeekTail list => asked heap .entry (listPeekTail list heap)
  | .listPrev list item => asked heap .entry (listPrev list item heap)
  | .listPrevWrap list item => asked heap .entry (listPrevWrap list item heap)
  | .listNext list item => asked heap .entry (listNext list item heap)
  | .listNextWrap list item => asked heap .entry (listNextWrap list item heap)
  | .listIsEmpty list => asked heap .truth (listIsEmpty list heap)
  | .listLength list => asked heap .count (listLength list heap).toOption
  | .listForEvery list => asked heap .entries (listForEvery list heap).toOption
  | .search list cmdId remove callbackNode => (search list cmdId remove callbackNode heap).toOption.map fun searched =>
      (searched.heap, .searched searched.callbackNode searched.hit)

end Dwadelib.Ipc.NodeList
