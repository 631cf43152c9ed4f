import Dwadelib.Linked.Lists
import Dwadelib.While

namespace Dwadelib

/-! # Loops over lists of linked cells

A loop follows one link of the cells from a head until it is back there. With as many rounds as there are
structures alive it has come back or never will.
-/

namespace Linked

open Circular

variable {α β σ ρ : Type} [DecidableEq α]

/-- One round of `for (node = head->next; node != head; node = node->next)`; the body may leave the loop. -/
def eachRound (head : α) (follow : α → Option α) (body : α → σ → Outcome (Iteration σ ρ)) (finish : σ → ρ)
    (state : α × σ) : Outcome (Iteration (α × σ) ρ) := do
  if state.1 = head then return .stop (finish state.2)
  else
    match ← body state.1 state.2 with
    | .stop result => return .stop result
    | .next after =>
        let following ← .ofOption (follow state.1)
        return .next (following, after)

def each (heap : Heap α β) (head : α) (follow : α → Option α) (body : α → σ → Outcome (Iteration σ ρ))
    (finish : σ → ρ) (state : σ) : Outcome ρ := do
  let node ← .ofOption (follow head)
  whileLoop (eachRound head follow body finish) (heap.keys.length + 1) (node, state)

/-- The body for one node after the other. -/
def inTurn (body : α → σ → Outcome (Iteration σ ρ)) (finish : σ → ρ) : List α → σ → Outcome ρ
  | [], state => .returned (finish state)
  | node :: nodes, state => do
      match ← body node state with
      | .stop result => return result
      | .next after => inTurn body finish nodes after

/-- The nodes that a loop meets. -/
def walk (heap : Heap α β) (head : α) (follow : α → Option α) : Outcome (List α) :=
  each heap head follow (fun node met => return .next (met ++ [node])) id []

variable {heap : Heap α β} {head here node : α} {nodes : List α} {ring : α × List α} {rest : List (α × List α)}
  {loose : List α} {follow : α → Option α} {body : α → σ → Outcome (Iteration σ ρ)} {finish : σ → ρ} {state : σ}
  {rounds : Nat}

theorem each_path (path : Path follow here nodes head) (outside : head ∉ nodes) (begun : follow here = some node)
    (enough : nodes.length < rounds) :
    whileLoop (eachRound head follow body finish) rounds (node, state) = inTurn body finish nodes state := by
  induction nodes generalizing here node state rounds with
  | nil =>
      obtain ⟨rounds, rfl⟩ : ∃ fewer, rounds = fewer + 1 := ⟨rounds - 1, by omega⟩
      cases begun.symm.trans path
      refine whileLoop_stop ?_
      rw [eachRound, if_pos rfl]
      rfl
  | cons first nodes ih =>
      obtain ⟨rounds, rfl⟩ : ∃ fewer, rounds = fewer + 1 := ⟨rounds - 1, by omega⟩
      obtain ⟨link, later⟩ := path
      cases begun.symm.trans link
      obtain ⟨apart, absent⟩ := not_or.mp (List.mem_cons.not.mp outside)
      rw [List.length_cons] at enough
      rw [whileLoop_succ, eachRound, if_neg (Ne.symm apart), inTurn]
      dsimp only
      cases body first state with
      | returned iteration =>
          cases iteration with
          | stop result => rfl
          | next after =>
              have following := later.first
              simp only [Outcome.returned_bind, following, Outcome.ofOption_some]
              exact ih later absent following (by omega)
      | running => rfl
      | undefined => rfl
      | aborted => rfl

omit [DecidableEq α] in
theorem inTurn_walk (met : List α) :
    inTurn (fun node met => return .next (met ++ [node])) id nodes met = .returned (met ++ nodes) := by
  induction nodes generalizing met with
  | nil =>
      rw [List.append_nil]
      rfl
  | cons node nodes ih =>
      rw [inTurn]
      exact (ih (met ++ [node])).trans (by rw [List.append_assoc, List.singleton_append])

omit [DecidableEq α] in
/-- A way that meets no node twice takes fewer rounds than there are structures. -/
theorem length_lt_rounds (distinct : (head :: nodes).Nodup) (live : ∀ node ∈ head :: nodes, node ∈ heap) :
    nodes.length < heap.keys.length + 1 := by
  have within : head :: nodes ⊆ heap.keys := fun node member => AList.mem_keys.mp (live node member)
  have shorter := (List.subperm_of_subset distinct within).length_le
  rw [List.length_cons] at shorter
  omega

section RoundTrip

variable (path : Path follow head nodes head) (distinct : (head :: nodes).Nodup)
  (live : ∀ node ∈ head :: nodes, node ∈ heap)
include path distinct live

theorem each_round_trip : each heap head follow body finish state = inTurn body finish nodes state := by
  have first := path.first
  rw [each, first, Outcome.ofOption_some, Outcome.returned_bind]
  exact each_path path (List.nodup_cons.mp distinct).1 first (length_lt_rounds distinct live)

theorem walk_round_trip : walk heap head follow = .returned nodes := by
  rw [walk, each_round_trip path distinct live, inTurn_walk, List.nil_append]

end RoundTrip

omit [DecidableEq α] in
theorem forall_mem_reverse (live : ∀ node ∈ head :: nodes, node ∈ heap) :
    ∀ node ∈ head :: nodes.reverse, node ∈ heap := by
  intro node member
  rw [List.mem_cons, List.mem_reverse, ← List.mem_cons] at member
  exact live node member

section Each

variable (related : Represents heap { lists := ring :: rest, loose := loose })
include related

theorem Represents.each_next :
    each heap ring.1 heap.nextOf body finish state = inTurn body finish ring.2 state :=
  each_round_trip related.circle.forward related.circle.distinct fun _ member => related.live member

theorem Represents.each_prev :
    each heap ring.1 heap.prevOf body finish state = inTurn body finish ring.2.reverse state :=
  each_round_trip related.circle.backward related.circle.turn.distinct
    (forall_mem_reverse fun _ member => related.live member)

theorem Represents.walk_next : walk heap ring.1 heap.nextOf = .returned ring.2 := by
  rw [walk, related.each_next, inTurn_walk, List.nil_append]

theorem Represents.walk_prev : walk heap ring.1 heap.prevOf = .returned ring.2.reverse := by
  rw [walk, related.each_prev, inTurn_walk, List.nil_append]

end Each

end Linked

end Dwadelib
