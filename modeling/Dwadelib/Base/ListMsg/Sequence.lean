import Dwadelib.Base.ListMsg
import Dwadelib.Simulation
import Mathlib.Data.List.Perm.Basic

namespace Dwadelib.ListMsg

/-! # Sequences of messages

What a list is for: a sequence of linked messages beside the messages that are alive and not linked.
-/

/-- The calls of a program; a message is created and released only while it is not linked. -/
inductive Call where
  | create (node : Address) (data : Int)
  | release (node : Address)
  | listAddHead (node : Address)
  | stackPush (node : Address)
  | listAddTail (node : Address)
  | queueIn (node : Address)
  | nodeAdd (node : Address)
  | queueOut
  | stackPop
  | listEmpty
  | nodeFind (data : Int)
  | nodeDel (data : Int)
  | destoryList
  | queueDestory
  deriving DecidableEq, Repr

inductive Answer where
  | done
  | empty (value : Bool)
  | found (node : Option Address)
  | removed (node : Option Address)
  | freed (nodes : List Address)
  deriving DecidableEq, Repr

structure Sequence (head : Address) where
  linked : List Address
  loose : List Address
  cmd : Address → Int
  distinct : (head :: (linked ++ loose)).Nodup

namespace Sequence

variable {head node : Address} {data : Int}

def start (head : Address) : Sequence head where
  linked := []
  loose := []
  cmd := fun _ => 0
  distinct := List.nodup_singleton head

def create (sequence : Sequence head) (node : Address) (data : Int)
    (fresh : node ∉ head :: (sequence.linked ++ sequence.loose)) : Sequence head where
  linked := sequence.linked
  loose := node :: sequence.loose
  cmd := Function.update sequence.cmd node data
  distinct :=
    have moved : (head :: (sequence.linked ++ node :: sequence.loose)).Perm
        (node :: head :: (sequence.linked ++ sequence.loose)) :=
      (List.perm_middle.cons head).trans (List.Perm.swap node head _)
    moved.nodup_iff.mpr (List.nodup_cons.mpr ⟨fresh, sequence.distinct⟩)

def release (sequence : Sequence head) (node : Address) : Sequence head where
  linked := sequence.linked
  loose := sequence.loose.erase node
  cmd := sequence.cmd
  distinct := sequence.distinct.sublist ((List.erase_sublist.append_left _).cons_cons head)

def addFront (sequence : Sequence head) (node : Address) (member : node ∈ sequence.loose) : Sequence head where
  linked := node :: sequence.linked
  loose := sequence.loose.erase node
  cmd := sequence.cmd
  distinct :=
    have moved : (node :: sequence.linked ++ sequence.loose.erase node).Perm (sequence.linked ++ sequence.loose) :=
      List.perm_middle.symm.trans ((List.perm_cons_erase member).symm.append_left _)
    (moved.cons head).nodup_iff.mpr sequence.distinct

def addBack (sequence : Sequence head) (node : Address) (member : node ∈ sequence.loose) : Sequence head where
  linked := sequence.linked ++ [node]
  loose := sequence.loose.erase node
  cmd := sequence.cmd
  distinct :=
    have moved : (sequence.linked ++ [node] ++ sequence.loose.erase node).Perm
        (sequence.linked ++ sequence.loose) := by
      rw [List.append_assoc]
      exact (List.perm_cons_erase member).symm.append_left _
    (moved.cons head).nodup_iff.mpr sequence.distinct

def takeFirst (sequence : Sequence head) : Sequence head × Option Address :=
  match parts : sequence.linked with
  | [] => (sequence, none)
  | node :: rest =>
      ({ linked := rest
         loose := node :: sequence.loose
         cmd := sequence.cmd
         distinct :=
          have moved : (rest ++ node :: sequence.loose).Perm (sequence.linked ++ sequence.loose) := by
            rw [parts]
            exact List.perm_middle
          (moved.cons head).nodup_iff.mpr sequence.distinct }, some node)

def find (sequence : Sequence head) (data : Int) : Option Address :=
  sequence.linked.find? fun node => sequence.cmd node = data

def delete (sequence : Sequence head) (node : Address) : Sequence head where
  linked := sequence.linked.erase node
  loose := sequence.loose
  cmd := sequence.cmd
  distinct := sequence.distinct.sublist ((List.erase_sublist.append_right _).cons_cons head)

def clear (sequence : Sequence head) : Sequence head where
  linked := []
  loose := sequence.loose
  cmd := sequence.cmd
  distinct := sequence.distinct.sublist ((List.sublist_append_right _ _).cons_cons head)

/-- A message that is put into the sequence must be alive and not in it. -/
def step (sequence : Sequence head) : Call → Option (Sequence head × Answer)
  | .create node data =>
      if fresh : node ∉ head :: (sequence.linked ++ sequence.loose) then
        some (sequence.create node data fresh, .done)
      else none
  | .release node => if node ∈ sequence.loose then some (sequence.release node, .done) else none
  | .listAddHead node | .stackPush node =>
      if member : node ∈ sequence.loose then some (sequence.addFront node member, .done) else none
  | .listAddTail node | .queueIn node | .nodeAdd node =>
      if member : node ∈ sequence.loose then some (sequence.addBack node member, .done) else none
  | .queueOut | .stackPop => some (sequence.takeFirst.1, .removed sequence.takeFirst.2)
  | .listEmpty => some (sequence, .empty sequence.linked.isEmpty)
  | .nodeFind data => some (sequence, .found (sequence.find data))
  | .nodeDel data =>
      match sequence.find data with
      | none => some (sequence, .freed [])
      | some node => some (sequence.delete node, .freed [node])
  | .destoryList | .queueDestory => some (sequence.clear, .freed sequence.linked.reverse)

end Sequence

def Call.entering : Call → List Address
  | .listAddHead node | .stackPush node | .listAddTail node | .queueIn node | .nodeAdd node => [node]
  | _ => []

def Answer.leaving : Answer → List Address
  | .removed node => node.toList
  | .freed nodes => nodes
  | _ => []

/-- The calls that leave the sequence as it is. -/
def Call.idle : Call → Bool
  | .create _ _ | .release _ | .listEmpty | .nodeFind _ => true
  | _ => false

def Call.ofQueue : Call → Bool
  | .queueIn _ | .queueOut => true
  | call => call.idle

/-- Calls of a stack in which each pop belongs to a push before it and no push is left over. -/
inductive Balanced : List Call → Prop where
  | nil : Balanced []
  | idle {call : Call} {rest : List Call} (isIdle : call.idle = true) (balanced : Balanced rest) :
      Balanced (call :: rest)
  | matched {node : Address} {inner rest : List Call} (within : Balanced inner) (behind : Balanced rest) :
      Balanced (.stackPush node :: (inner ++ .stackPop :: rest))

namespace Sequence

open Simulation

variable {head node : Address} {sequence next final : Sequence head} {call : Call} {calls : List Call}
  {answer : Answer} {answers : List Answer} {rest : List Address}

theorem takeFirst_nil (parts : sequence.linked = []) : sequence.takeFirst = (sequence, none) := by
  unfold takeFirst
  split
  · rfl
  · rename_i other
    rw [parts] at other
    contradiction

theorem takeFirst_cons (parts : sequence.linked = node :: rest) :
    sequence.takeFirst.2 = some node ∧ sequence.takeFirst.1.linked = rest ∧
      sequence.takeFirst.1.loose = node :: sequence.loose ∧ sequence.takeFirst.1.cmd = sequence.cmd := by
  unfold takeFirst
  split
  · rename_i other
    rw [parts] at other
    contradiction
  · rename_i other
    cases parts.symm.trans other
    exact ⟨rfl, rfl, rfl, rfl⟩

theorem linked_takeFirst (sequence : Sequence head) :
    sequence.linked = sequence.takeFirst.2.toList ++ sequence.takeFirst.1.linked := by
  cases parts : sequence.linked with
  | nil =>
      rw [takeFirst_nil parts, parts]
      rfl
  | cons node rest =>
      obtain ⟨removed, left, -, -⟩ := takeFirst_cons parts
      rw [removed, left]
      rfl

/-- What a step does to the linked messages. -/
inductive Effect (sequence : Sequence head) (call : Call) (next : Sequence head) (answer : Answer) : Prop where
  | idle (isIdle : call.idle = true) (nothing : answer.leaving = []) (same : next.linked = sequence.linked)
  | front (node : Address) (entering : call.entering = [node]) (notIdle : call.idle = false)
      (notQueue : call.ofQueue = false) (nothing : answer.leaving = []) (linked : next.linked = node :: sequence.linked)
  | back (node : Address) (entering : call.entering = [node]) (notIdle : call.idle = false)
      (nothing : answer.leaving = []) (linked : next.linked = sequence.linked ++ [node])
  | out (nothing : call.entering = []) (notIdle : call.idle = false)
      (parts : sequence.linked = answer.leaving ++ next.linked)
  | freed (nothing : call.entering = []) (notIdle : call.idle = false) (notQueue : call.ofQueue = false)
      (parts : sequence.linked.Perm (answer.leaving ++ next.linked))

theorem effect_of_step (taken : sequence.step call = some (next, answer)) : Effect sequence call next answer := by
  cases call with
  | create node data =>
      simp only [step, Option.dite_none_right_eq_some, Option.some.injEq, Prod.mk.injEq] at taken
      obtain ⟨fresh, rfl, rfl⟩ := taken
      exact .idle rfl rfl rfl
  | release node =>
      simp only [step, Option.ite_none_right_eq_some, Option.some.injEq, Prod.mk.injEq] at taken
      obtain ⟨member, rfl, rfl⟩ := taken
      exact .idle rfl rfl rfl
  | listAddHead node | stackPush node =>
      simp only [step, Option.dite_none_right_eq_some, Option.some.injEq, Prod.mk.injEq] at taken
      obtain ⟨member, rfl, rfl⟩ := taken
      exact .front node rfl rfl rfl rfl rfl
  | listAddTail node | queueIn node | nodeAdd node =>
      simp only [step, Option.dite_none_right_eq_some, Option.some.injEq, Prod.mk.injEq] at taken
      obtain ⟨member, rfl, rfl⟩ := taken
      exact .back node rfl rfl rfl rfl
  | queueOut | stackPop =>
      cases taken
      exact .out rfl rfl sequence.linked_takeFirst
  | listEmpty | nodeFind data =>
      cases taken
      exact .idle rfl rfl rfl
  | nodeDel data =>
      cases found : sequence.find data with
      | none =>
          rw [step, found] at taken
          cases taken
          exact .freed rfl rfl rfl (List.Perm.refl _)
      | some node =>
          rw [step, found] at taken
          cases taken
          exact .freed rfl rfl rfl (List.perm_cons_erase (List.mem_of_find?_eq_some found))
  | destoryList | queueDestory =>
      cases taken
      have reversed := (List.reverse_perm sequence.linked).symm
      rw [← List.append_nil sequence.linked.reverse] at reversed
      exact .freed rfl rfl rfl reversed

theorem entering_idle (isIdle : call.idle = true) : call.entering = [] := by
  cases call <;> first | rfl | contradiction

theorem step_conserved (taken : sequence.step call = some (next, answer)) :
    (sequence.linked ++ call.entering).Perm (answer.leaving ++ next.linked) := by
  cases effect_of_step taken with
  | idle isIdle nothing same => rw [entering_idle isIdle, nothing, same, List.append_nil, List.nil_append]
  | front node entering notIdle notQueue nothing linked =>
      rw [entering, nothing, linked]
      exact List.perm_append_singleton node sequence.linked
  | back node entering notIdle nothing linked => rw [entering, nothing, linked, List.nil_append]
  | out nothing notIdle parts => rw [nothing, List.append_nil, parts]
  | freed nothing notIdle notQueue parts =>
      rw [nothing, List.append_nil]
      exact parts

/-- Nothing is lost or doubled: what was put in has come out once or is still linked. -/
theorem run_conserved (performed : performAll step sequence calls = some (final, answers)) :
    (sequence.linked ++ calls.flatMap Call.entering).Perm (answers.flatMap Answer.leaving ++ final.linked) := by
  induction calls generalizing sequence answers with
  | nil =>
      cases performed
      simp
  | cons call calls ih =>
      obtain ⟨next, answer, rest, taken, following, rfl⟩ := performAll_cons_eq_some.mp performed
      have here := step_conserved taken
      have later := ih following
      rw [List.flatMap_cons, List.flatMap_cons, ← List.append_assoc, List.append_assoc answer.leaving]
      refine (here.append_right _).trans ?_
      rw [List.append_assoc]
      exact later.append_left _

theorem step_fifo (queue : call.ofQueue = true) (taken : sequence.step call = some (next, answer)) :
    sequence.linked ++ call.entering = answer.leaving ++ next.linked := by
  cases effect_of_step taken with
  | idle isIdle nothing same => rw [entering_idle isIdle, nothing, same, List.append_nil, List.nil_append]
  | front node entering notIdle notQueue nothing linked => exact absurd queue (by rw [notQueue]; decide)
  | back node entering notIdle nothing linked => rw [entering, nothing, linked, List.nil_append]
  | out nothing notIdle parts => rw [nothing, List.append_nil, parts]
  | freed nothing notIdle notQueue parts => exact absurd queue (by rw [notQueue]; decide)

/-- First in, first out. -/
theorem run_fifo (queue : ∀ call ∈ calls, call.ofQueue = true)
    (performed : performAll step sequence calls = some (final, answers)) :
    sequence.linked ++ calls.flatMap Call.entering = answers.flatMap Answer.leaving ++ final.linked := by
  induction calls generalizing sequence answers with
  | nil =>
      cases performed
      simp
  | cons call calls ih =>
      obtain ⟨next, answer, rest, taken, following, rfl⟩ := performAll_cons_eq_some.mp performed
      obtain ⟨here, later⟩ := List.forall_mem_cons.mp queue
      rw [List.flatMap_cons, List.flatMap_cons, ← List.append_assoc, step_fifo here taken, List.append_assoc,
        ih later following, List.append_assoc]

theorem step_idle (isIdle : call.idle = true) (taken : sequence.step call = some (next, answer)) :
    next.linked = sequence.linked := by
  cases effect_of_step taken with
  | idle isIdle nothing same => exact same
  | front node entering notIdle notQueue nothing linked => exact absurd isIdle (by rw [notIdle]; decide)
  | back node entering notIdle nothing linked => exact absurd isIdle (by rw [notIdle]; decide)
  | out nothing notIdle parts => exact absurd isIdle (by rw [notIdle]; decide)
  | freed nothing notIdle notQueue parts => exact absurd isIdle (by rw [notIdle]; decide)

theorem step_push (taken : sequence.step (.stackPush node) = some (next, answer)) :
    next.linked = node :: sequence.linked := by
  simp only [step, Option.dite_none_right_eq_some, Option.some.injEq, Prod.mk.injEq] at taken
  obtain ⟨member, rfl, rfl⟩ := taken
  rfl

theorem step_pop (parts : sequence.linked = node :: rest)
    (taken : sequence.step .stackPop = some (next, answer)) :
    answer = .removed (some node) ∧ next.linked = rest := by
  obtain ⟨removed, left, -, -⟩ := takeFirst_cons parts
  cases taken
  rw [removed]
  exact ⟨rfl, left⟩

/-- Balanced calls of a stack leave it as it was. -/
theorem run_balanced (balanced : Balanced calls)
    (performed : performAll step sequence calls = some (final, answers)) : final.linked = sequence.linked := by
  induction balanced generalizing sequence final answers with
  | nil =>
      cases performed
      rfl
  | idle isIdle balanced ih =>
      obtain ⟨next, answer, others, taken, following, rfl⟩ := performAll_cons_eq_some.mp performed
      rw [ih following, step_idle isIdle taken]
  | @matched node inner behind within later ihWithin ihLater =>
      obtain ⟨next, answer, others, pushed, following, rfl⟩ := performAll_cons_eq_some.mp performed
      obtain ⟨middle, first, last, started, continued, rfl⟩ := performAll_append_eq_some.mp following
      obtain ⟨after, removed, rest, popped, finished, rfl⟩ := performAll_cons_eq_some.mp continued
      have top := (ihWithin started).trans (step_push pushed)
      rw [ihLater finished, (step_pop top popped).2]

/-- Last in, first out: a pop returns what the push that it belongs to has put in. -/
theorem run_lifo {before inner after : List Call} (balanced : Balanced inner)
    (performed : performAll step sequence (before ++ .stackPush node :: (inner ++ .stackPop :: after)) =
      some (final, answers)) :
    answers[before.length + inner.length + 1]? = some (.removed (some node)) := by
  obtain ⟨start, first, others, started, continued, rfl⟩ := performAll_append_eq_some.mp performed
  obtain ⟨next, answer, more, pushed, following, rfl⟩ := performAll_cons_eq_some.mp continued
  obtain ⟨middle, during, last, within, ending, rfl⟩ := performAll_append_eq_some.mp following
  obtain ⟨after, removed, rest, popped, finished, rfl⟩ := performAll_cons_eq_some.mp ending
  have top := (run_balanced balanced within).trans (step_push pushed)
  obtain ⟨rfl, -⟩ := step_pop top popped
  have lengthFirst := length_of_performAll started
  have lengthDuring := length_of_performAll within
  rw [List.getElem?_append_right (by omega), lengthFirst, Nat.add_assoc, Nat.add_sub_cancel_left,
    List.getElem?_cons_succ, List.getElem?_append_right (by omega), lengthDuring, Nat.sub_self,
    List.getElem?_cons_zero]

end Sequence

end Dwadelib.ListMsg
