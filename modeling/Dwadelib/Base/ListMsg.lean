import Dwadelib.Linked.Walk

namespace Dwadelib.ListMsg

/-! # Linked lists of messages

A pointer to a message is its address. The heap holds the messages that are alive; what is done with
another address, or with a link that was never set, is undefined.
-/

abbrev Address := Nat

/-- Each cell is a `list_msg_t`: what it holds beside its two links is its `cmd`. -/
abbrev Heap := Linked.Heap Address Int

def listHeadInit (head : Address) (heap : Heap) : Option Heap := do
  let heap ← heap.setNext head head
  heap.setPrev head head

def listAdd (new prev next : Address) (heap : Heap) : Option Heap := do
  let heap ← heap.setPrev next new
  let heap ← heap.setNext new next
  let heap ← heap.setPrev new prev
  heap.setNext prev new

def listAddHead (new head : Address) (heap : Heap) : Option Heap := do
  let next ← heap.nextOf head
  listAdd new head next heap

def listAddTail (new head : Address) (heap : Heap) : Option Heap := do
  let prev ← heap.prevOf head
  listAdd new prev head heap

def listDel (prev next : Address) (heap : Heap) : Option Heap := do
  let heap ← heap.setNext prev next
  heap.setPrev next prev

def listEmpty (head : Address) (heap : Heap) : Option Bool := do
  let next ← heap.nextOf head
  some (next = head)

def listSwap (a b : Address) (heap : Heap) : Option Heap := do
  let prev ← heap.prevOf a
  let heap ← heap.setNext prev b
  let tmp ← heap.prevOf a
  let prev ← heap.prevOf b
  let heap ← heap.setPrev a prev
  let prev ← heap.prevOf b
  let heap ← heap.setNext prev a
  let heap ← heap.setPrev b tmp
  let next ← heap.nextOf a
  let heap ← heap.setPrev next b
  let tmp ← heap.nextOf a
  let next ← heap.nextOf b
  let heap ← heap.setNext a next
  let heap ← heap.setNext b tmp
  let next ← heap.nextOf b
  heap.setPrev next a

/-- `queue_create`, `stack_create` and `node_create` with the address that `malloc` returns, which is
no address of a message that is alive. -/
def nodeCreate (msg : Address) (data : Int) (heap : Heap) : Option Heap := heap.allocate msg data

def queueIn (head new : Address) (heap : Heap) : Option Heap := listAddTail new head heap

def nodeAdd (head node : Address) (heap : Heap) : Option Heap := listAddTail node head heap

def stackPush (head node : Address) (heap : Heap) : Option Heap := listAddHead node head heap

/-- The first message is unlinked and returned, a null pointer for an empty list. -/
def queueOut (head : Address) (heap : Heap) : Option (Heap × Option Address) := do
  if ← listEmpty head heap then some (heap, none)
  else
    let tmp ← heap.nextOf head
    let next ← heap.nextOf tmp
    let heap ← listDel head next heap
    some (heap, some tmp)

def stackPop (head : Address) (heap : Heap) : Option (Heap × Option Address) := queueOut head heap

/-- One round of `while (tmp != head)`. -/
def findRound (head : Address) (data : Int) (heap : Heap) (tmp : Address) :
    Outcome (Iteration Address (Option Address)) := do
  if tmp ≠ head then
    let cmd ← .ofOption (heap.heldOf tmp)
    if cmd = data then return .stop (some tmp)
    else
      let following ← .ofOption (heap.nextOf tmp)
      return .next following
  else return .stop none

/-- With as many rounds as there are messages a walk has come back or never will. -/
def nodeFind (head : Address) (data : Int) (heap : Heap) : Outcome (Option Address) := do
  let tmp ← .ofOption (heap.nextOf head)
  whileLoop (findRound head data heap) (heap.keys.length + 1) tmp

/-- The second component is what is freed. -/
def nodeDel (head : Address) (data : Int) (heap : Heap) : Outcome (Heap × List Address) := do
  match ← nodeFind head data heap with
  | none => return (heap, [])
  | some msg =>
      let prev ← .ofOption (heap.prevOf msg)
      let next ← .ofOption (heap.nextOf msg)
      let heap ← .ofOption (listDel prev next heap)
      let heap ← .ofOption (heap.free msg)
      return (heap, [msg])

structure Destruction where
  tmp : Address
  heap : Heap
  freed : List Address

def destoryRound (head : Address) (state : Destruction) :
    Outcome (Iteration Destruction (Heap × List Address)) := do
  if state.tmp ≠ head then
    let del := state.tmp
    let tmp ← .ofOption (state.heap.prevOf del)
    let heap ← .ofOption (state.heap.free del)
    return .next { tmp := tmp, heap := heap, freed := state.freed ++ [del] }
  else
    let heap ← .ofOption (listHeadInit head state.heap)
    return .stop (heap, state.freed)

/-- The second component is what is freed, in order. Each round but the last frees a message. -/
def destoryList (head : Address) (heap : Heap) : Outcome (Heap × List Address) := do
  let tmp ← .ofOption (heap.prevOf head)
  whileLoop (destoryRound head) (heap.keys.length + 1) { tmp := tmp, heap := heap, freed := [] }

def queueDestory (head : Address) (heap : Heap) : Outcome (Heap × List Address) := destoryList head heap

/-- The messages met on the way from the head back to it, by one of the links. -/
def walk (head : Address) (follow : Address → Option Address) (heap : Heap) : Outcome (List Address) :=
  Linked.walk heap head follow

end Dwadelib.ListMsg
