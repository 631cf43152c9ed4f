import Mathlib.Data.List.Nodup

namespace Dwadelib

/-! # Circles of links

A circle is a sequence of nodes between a head and itself: one field of each node leads through the
sequence and back to the head, the other one leads through it the other way.
-/

namespace Circular

variable {α : Type} {next prev other : α → Option α} {here there node target source new : α}
  {nodes before after : List α}

/-- The links lead from one node through others to a last one. -/
def Path (next : α → Option α) : α → List α → α → Prop
  | here, [], there => next here = some there
  | here, node :: nodes, there => next here = some node ∧ Path next node nodes there

theorem Path.append :
    Path next here (before ++ node :: after) there ↔ Path next here before node ∧ Path next node after there := by
  induction before generalizing here with
  | nil => rfl
  | cons first before ih =>
      simp only [List.cons_append, Path, ih, and_assoc]

theorem Path.first (path : Path next here nodes there) : next here = some (nodes.headD there) := by
  cases nodes with
  | nil => exact path
  | cons node nodes => exact path.1

theorem Path.last (path : Path next here nodes there) : next (nodes.getLastD here) = some there := by
  induction nodes generalizing here with
  | nil => exact path
  | cons node nodes ih =>
      rw [List.getLastD_cons]
      exact ih path.2

theorem Path.front (path : Path next here (before ++ after) there) :
    Path next here before (after.headD there) := by
  cases after with
  | nil =>
      rw [List.append_nil] at path
      exact path
  | cons node after => exact (Path.append.mp path).1

theorem Path.back (path : Path next here (before ++ after) there) :
    Path next (before.getLastD here) after there := by
  induction before generalizing here with
  | nil => exact path
  | cons node before ih =>
      rw [List.getLastD_cons]
      exact ih path.2

theorem Path.congr (path : Path next here nodes there) (same : ∀ node ∈ here :: nodes, other node = next node) :
    Path other here nodes there := by
  induction nodes generalizing here with
  | nil => exact (same here List.mem_cons_self).trans path
  | cons node nodes ih =>
      obtain ⟨atHere, later⟩ := List.forall_mem_cons.mp same
      exact ⟨atHere.trans path.1, ih path.2 later⟩

/-- Only the last link of a path is changed. -/
theorem Path.redirect (path : Path next here nodes there) (distinct : (here :: nodes).Nodup)
    (same : ∀ node ∈ here :: nodes, node ≠ nodes.getLastD here → other node = next node)
    (last : other (nodes.getLastD here) = some target) : Path other here nodes target := by
  induction nodes generalizing here with
  | nil => exact last
  | cons node nodes ih =>
      obtain ⟨outside, later⟩ := List.nodup_cons.mp distinct
      have apart : here ≠ nodes.getLastD node := fun equal =>
        outside (equal ▸ List.getLastD_mem_cons)
      rw [List.getLastD_cons] at same last
      obtain ⟨atHere, behind⟩ := List.forall_mem_cons.mp same
      exact ⟨(atHere apart).trans path.1, ih path.2 later behind last⟩

/-- The rest of a path is reached from another node. -/
theorem Path.enter (path : Path next here nodes there) (same : ∀ node ∈ nodes, other node = next node)
    (first : other source = some (nodes.headD there)) : Path other source nodes there := by
  cases nodes with
  | nil => exact first
  | cons node nodes => exact ⟨first, path.2.congr same⟩

theorem ne_last_of_mem (distinct : (here :: (before ++ after)).Nodup) (member : node ∈ after) :
    node ≠ before.getLastD here := by
  have apart := (List.nodup_append.mp (show (here :: before ++ after).Nodup from distinct)).2.2
  exact (apart _ List.getLastD_mem_cons node member).symm

theorem perm_exchange {a b : α} {middle : List α} :
    (before ++ b :: (middle ++ a :: after)).Perm (before ++ a :: (middle ++ b :: after)) := by
  apply List.Perm.append_left before
  calc
    (b :: (middle ++ a :: after)).Perm (b :: a :: (middle ++ after)) := List.perm_middle.cons b
    List.Perm _ (a :: b :: (middle ++ after)) := List.Perm.swap a b _
    List.Perm _ (a :: (middle ++ b :: after)) := List.perm_middle.symm.cons a

/-- The links with which `a` and `b` take each other's place on a path. -/
structure Exchanges (next other : α → Option α) (here : α) (before : List α) (a : α) (middle : List α) (b : α)
    (after : List α) (there : α) : Prop where
  kept : ∀ node ∈ here :: (before ++ a :: (middle ++ b :: after)), node ≠ before.getLastD here → node ≠ a →
    node ≠ middle.getLastD a → node ≠ b → other node = next node
  into : other (before.getLastD here) = some b
  first : other b = some (middle.headD a)
  last : other (middle.getLastD b) = some a
  out : other a = some (after.headD there)

theorem Path.exchange {a b : α} {middle : List α} (path : Path next here (before ++ a :: (middle ++ b :: after)) there)
    (distinct : (here :: (before ++ a :: (middle ++ b :: after))).Nodup)
    (links : Exchanges next other here before a middle b after there) :
    Path other here (before ++ b :: (middle ++ a :: after)) there := by
  obtain ⟨kept, into, first, last, out⟩ := links
  obtain ⟨towards, passing⟩ := Path.append.mp path
  obtain ⟨between, onwards⟩ := Path.append.mp passing
  obtain ⟨front, back, apart⟩ :=
    List.nodup_append.mp (show (here :: before ++ a :: (middle ++ b :: after)).Nodup from distinct)
  obtain ⟨outside, backDistinct⟩ := List.nodup_cons.mp back
  obtain ⟨middleDistinct, behindDistinct, apartMiddle⟩ := List.nodup_append.mp backDistinct
  obtain ⟨outsideBehind, -⟩ := List.nodup_cons.mp behindDistinct
  have bBehind : b ∈ a :: (middle ++ b :: after) :=
    List.mem_cons_of_mem a (List.mem_append_right middle List.mem_cons_self)
  have lastBehind : middle.getLastD a ∈ a :: (middle ++ b :: after) :=
    List.mem_append_left (b :: after) List.getLastD_mem_cons
  have inBack : ∀ node ∈ middle ++ b :: after, node ≠ before.getLastD here ∧ node ≠ a := fun node member =>
    ⟨(apart _ List.getLastD_mem_cons node (List.mem_cons_of_mem a member)).symm, ne_of_mem_of_not_mem member outside⟩
  have inWhole : ∀ node ∈ middle ++ b :: after, node ∈ here :: (before ++ a :: (middle ++ b :: after)) :=
    fun node member => List.mem_append_right (here :: before) (List.mem_cons_of_mem a member)
  refine Path.append.mpr ⟨towards.redirect front ?_ into, Path.append.mpr ⟨?_, onwards.enter ?_ out⟩⟩
  · intro node member notLast
    exact kept node (List.mem_append_left _ member) notLast (apart node member a List.mem_cons_self)
      (apart node member _ lastBehind) (apart node member b bBehind)
  · cases middle with
    | nil => exact first
    | cons node middle =>
        rw [List.getLastD_cons] at last kept
        refine ⟨first, between.2.redirect middleDistinct ?_ last⟩
        intro inside member notLast
        have inMiddle := List.mem_append_left (b :: after) member
        have notBack := inBack inside inMiddle
        exact kept inside (inWhole inside inMiddle) notBack.1 notBack.2 notLast
          (apartMiddle inside member b List.mem_cons_self)
  · intro node member
    have inAfter := List.mem_append_right middle (List.mem_cons_of_mem b member)
    have notBack := inBack node inAfter
    have notMiddle : node ≠ middle.getLastD a := by
      cases middle with
      | nil => exact notBack.2
      | cons first middle =>
          rw [List.getLastD_cons]
          exact (apartMiddle _ List.getLastD_mem_cons node (List.mem_cons_of_mem b member)).symm
    exact kept node (inWhole node inAfter) notBack.1 notBack.2 notMiddle (ne_of_mem_of_not_mem member outsideBehind)

section Change

variable [DecidableEq α]

/-- A node is put between two neighbours. -/
theorem Path.insert (path : Path next here (before ++ after) there)
    (distinct : (here :: (before ++ after)).Nodup) (fresh : new ∉ here :: (before ++ after))
    (links : ∀ node, other node = if node = before.getLastD here then some new
      else if node = new then some (after.headD there) else next node) :
    Path other here (before ++ new :: after) there := by
  have front : (here :: before).Nodup := (List.nodup_append.mp (show (here :: before ++ after).Nodup from distinct)).1
  have kept : ∀ node ∈ here :: (before ++ after), node ≠ before.getLastD here → other node = next node := by
    intro node member apart
    rw [links, if_neg apart, if_neg (ne_of_mem_of_not_mem member fresh)]
  have into : other (before.getLastD here) = some new := by rw [links, if_pos rfl]
  have out : other new = some (after.headD there) := by
    have apart : new ≠ before.getLastD here := fun equal =>
      fresh (equal ▸ List.mem_append_left after List.getLastD_mem_cons)
    rw [links, if_neg apart, if_pos rfl]
  refine Path.append.mpr ⟨path.front.redirect front ?_ into, path.back.enter ?_ out⟩
  · intro node member apart
    exact kept node (List.mem_append_left after member) apart
  · intro node member
    exact kept node (List.mem_cons_of_mem _ (List.mem_append_right before member)) (ne_last_of_mem distinct member)

/-- A node is taken out from between its neighbours. -/
theorem Path.remove (path : Path next here (before ++ node :: after) there)
    (distinct : (here :: (before ++ node :: after)).Nodup)
    (links : ∀ kept, other kept = if kept = before.getLastD here then some (after.headD there) else next kept) :
    Path other here (before ++ after) there := by
  obtain ⟨towards, onwards⟩ := Path.append.mp path
  have front : (here :: before).Nodup :=
    (List.nodup_append.mp (show (here :: before ++ node :: after).Nodup from distinct)).1
  have around : other (before.getLastD here) = some (after.headD there) := by rw [links, if_pos rfl]
  have passing : Path other here before (after.headD there) := by
    refine towards.redirect front ?_ around
    intro kept member apart
    rw [links, if_neg apart]
  cases after with
  | nil =>
      rw [List.append_nil]
      exact passing
  | cons following after =>
      refine Path.append.mpr ⟨passing, onwards.2.congr ?_⟩
      intro kept member
      rw [links, if_neg (ne_last_of_mem distinct (List.mem_cons_of_mem _ member))]

end Change

structure Circle (next prev : α → Option α) (head : α) (nodes : List α) : Prop where
  distinct : (head :: nodes).Nodup
  forward : Path next head nodes head
  backward : Path prev head nodes.reverse head

section Circle

variable {head : α} {nextAfter prevAfter : α → Option α}

theorem getLastD_reverse : nodes.reverse.getLastD head = nodes.headD head := by
  rw [List.getLastD_eq_getLast?, List.getLast?_reverse, List.headD_eq_head?_getD]

theorem headD_reverse : nodes.reverse.headD head = nodes.getLastD head := by
  rw [List.getLastD_eq_getLast?, List.headD_eq_head?_getD, List.head?_reverse]

theorem Circle.empty (next_head : next head = some head) (prev_head : prev head = some head) :
    Circle next prev head [] := by
  constructor
  · exact List.nodup_singleton head
  · exact next_head
  · exact prev_head

/-- A circle read the other way. -/
theorem Circle.turn (circle : Circle next prev head nodes) : Circle prev next head nodes.reverse := by
  constructor
  · obtain ⟨outside, distinct⟩ := List.nodup_cons.mp circle.distinct
    exact List.nodup_cons.mpr ⟨fun member => outside (List.mem_reverse.mp member), List.nodup_reverse.mpr distinct⟩
  · exact circle.backward
  · rw [List.reverse_reverse]
    exact circle.forward

theorem Circle.congr (circle : Circle next prev head nodes)
    (same : ∀ node ∈ head :: nodes, nextAfter node = next node ∧ prevAfter node = prev node) :
    Circle nextAfter prevAfter head nodes := by
  constructor
  · exact circle.distinct
  · exact circle.forward.congr fun node member => (same node member).1
  · refine circle.backward.congr fun node member => (same node ?_).2
    rw [List.mem_cons, List.mem_reverse, ← List.mem_cons] at member
    exact member

theorem Circle.neighbours (circle : Circle next prev head (before ++ node :: after)) :
    next node = some (after.headD head) ∧ prev node = some (before.getLastD head) := by
  have turned := circle.backward
  rw [List.reverse_append, List.reverse_cons, List.append_assoc, List.singleton_append] at turned
  have towards := (Path.append.mp turned).2.first
  rw [headD_reverse] at towards
  exact ⟨(Path.append.mp circle.forward).2.first, towards⟩

/-- One link of a node leads to another node whose other link leads back. -/
def Inverse (next prev : α → Option α) (nodes : List α) : Prop :=
  ∀ node ∈ nodes, ∃ following ∈ nodes, next node = some following ∧ prev following = some node

theorem Circle.inverse (circle : Circle next prev head nodes) : Inverse next prev (head :: nodes) := by
  intro node member
  rcases List.mem_cons.mp member with rfl | inside
  · refine ⟨nodes.headD node, ?_, circle.forward.first, ?_⟩
    · cases nodes <;> simp
    · have last := circle.backward.last
      rw [getLastD_reverse] at last
      exact last
  · obtain ⟨before, after, rfl⟩ := List.append_of_mem inside
    have backward := circle.backward
    rw [List.reverse_append, List.reverse_cons, List.append_assoc, List.singleton_append] at backward
    have last := (Path.append.mp backward).1.last
    rw [getLastD_reverse] at last
    refine ⟨after.headD head, ?_, (Path.append.mp circle.forward).2.first, last⟩
    cases after <;> simp

theorem Circle.inverse_prev (circle : Circle next prev head nodes) : Inverse prev next (head :: nodes) := by
  intro node member
  obtain ⟨preceding, inside, back, onwards⟩ := circle.turn.inverse node (by
    rw [List.mem_cons, List.mem_reverse, ← List.mem_cons]
    exact member)
  rw [List.mem_cons, List.mem_reverse, ← List.mem_cons] at inside
  exact ⟨preceding, inside, back, onwards⟩

theorem Circle.exchange {a b : α} {middle : List α} (circle : Circle next prev head (before ++ a :: (middle ++ b :: after)))
    (nextLinks : Exchanges next nextAfter head before a middle b after head)
    (prevLinks : Exchanges prev prevAfter head after.reverse b middle.reverse a before.reverse head) :
    Circle nextAfter prevAfter head (before ++ b :: (middle ++ a :: after)) := by
  have reversed : ∀ {a b : α}, (before ++ a :: (middle ++ b :: after)).reverse =
      after.reverse ++ b :: (middle.reverse ++ a :: before.reverse) := by
    intro a b
    simp
  constructor
  · exact (perm_exchange.cons head).nodup_iff.mpr circle.distinct
  · exact circle.forward.exchange circle.distinct nextLinks
  · have turned := circle.turn
    rw [reversed] at turned ⊢
    exact turned.forward.exchange turned.distinct prevLinks

variable [DecidableEq α]

theorem Circle.insert (circle : Circle next prev head (before ++ after)) (fresh : new ∉ head :: (before ++ after))
    (nextLinks : ∀ node, nextAfter node = if node = before.getLastD head then some new
      else if node = new then some (after.headD head) else next node)
    (prevLinks : ∀ node, prevAfter node = if node = after.headD head then some new
      else if node = new then some (before.getLastD head) else prev node) :
    Circle nextAfter prevAfter head (before ++ new :: after) := by
  have turned := circle.turn
  rw [List.reverse_append] at turned
  constructor
  · have moved : (head :: (before ++ new :: after)).Perm (new :: head :: (before ++ after)) :=
      (List.perm_middle.cons head).trans (List.Perm.swap new head _)
    exact moved.nodup_iff.mpr (List.nodup_cons.mpr ⟨fresh, circle.distinct⟩)
  · exact circle.forward.insert circle.distinct fresh nextLinks
  · have absent : new ∉ head :: (after.reverse ++ before.reverse) := by
      rw [← List.reverse_append, List.mem_cons, List.mem_reverse, ← List.mem_cons]
      exact fresh
    rw [List.reverse_append, List.reverse_cons, List.append_assoc, List.singleton_append]
    refine turned.forward.insert turned.distinct absent ?_
    rw [getLastD_reverse, headD_reverse]
    exact prevLinks

theorem Circle.remove (circle : Circle next prev head (before ++ node :: after))
    (nextLinks : ∀ kept, nextAfter kept = if kept = before.getLastD head then some (after.headD head) else next kept)
    (prevLinks : ∀ kept, prevAfter kept = if kept = after.headD head then some (before.getLastD head) else prev kept) :
    Circle nextAfter prevAfter head (before ++ after) := by
  have turned := circle.turn
  rw [List.reverse_append, List.reverse_cons, List.append_assoc, List.singleton_append] at turned
  constructor
  · have fewer : (head :: (before ++ after)).Sublist (head :: (before ++ node :: after)) :=
      ((List.sublist_cons_self node after).append_left before).cons_cons head
    exact circle.distinct.sublist fewer
  · exact circle.forward.remove circle.distinct nextLinks
  · rw [List.reverse_append]
    refine turned.forward.remove turned.distinct ?_
    rw [getLastD_reverse, headD_reverse]
    exact prevLinks

end Circle

end Circular

end Dwadelib
