import Dwadelib.Circular

namespace Dwadelib

/-! # Rings of links

How circles are joined, cut and given another head, and several circles beside each other. What an
operation does to one circle leaves the other ones alone as long as it changes none of their links.
-/

namespace Circular

variable {α : Type} {next prev other nextAfter prevAfter : α → Option α}
  {here there node source target head list new old first last : α} {nodes before after front back : List α}

/-- Two paths make one. -/
theorem Path.join (towards : Path next here before (after.headD there))
    (onwards : Path next (before.getLastD here) after there) : Path next here (before ++ after) there := by
  induction before generalizing here with
  | nil => exact onwards
  | cons node before ih =>
      rw [List.getLastD_cons] at onwards
      exact ⟨towards.1, ih towards.2 onwards⟩

/-- The nodes of a path lead from another node to another one. -/
theorem Path.move (path : Path next here nodes there) (distinct : nodes.Nodup)
    (into : other source = some (nodes.headD target)) (out : other (nodes.getLastD source) = some target)
    (same : ∀ node ∈ nodes, node ≠ nodes.getLastD source → other node = next node) :
    Path other source nodes target := by
  cases nodes with
  | nil => exact into
  | cons node nodes =>
      rw [List.getLastD_cons] at out same
      exact ⟨into, path.2.redirect distinct same out⟩

theorem getLastD_congr (nonempty : nodes ≠ []) : nodes.getLastD source = nodes.getLastD target := by
  cases nodes with
  | nil => contradiction
  | cons node nodes => rw [List.getLastD_cons, List.getLastD_cons]

theorem headD_congr (nonempty : nodes ≠ []) : nodes.headD source = nodes.headD target := by
  cases nodes with
  | nil => contradiction
  | cons node nodes => rfl

theorem headD_append (nonempty : nodes ≠ []) : (nodes ++ after).headD source = nodes.headD target := by
  cases nodes with
  | nil => contradiction
  | cons node nodes => rfl

theorem headD_mem (nonempty : nodes ≠ []) : nodes.headD target ∈ nodes := by
  cases nodes with
  | nil => contradiction
  | cons node nodes => exact List.mem_cons_self

theorem getLastD_mem (nonempty : nodes ≠ []) : nodes.getLastD target ∈ nodes := by
  cases nodes with
  | nil => contradiction
  | cons node nodes =>
      rw [List.getLastD_cons]
      exact List.getLastD_mem_cons

/-- The links with which the nodes of one path come between two parts of another one. -/
structure Splices (next other : α → Option α) (here : α) (before : List α) (list : α) (nodes after : List α)
    (there : α) : Prop where
  kept : ∀ node ∈ here :: (before ++ after) ++ nodes, node ≠ before.getLastD here → node ≠ nodes.getLastD list →
    other node = next node
  into : other (before.getLastD here) = some (nodes.headD list)
  out : other (nodes.getLastD list) = some (after.headD there)

theorem Path.splice (path : Path next here (before ++ after) there) (distinct : (here :: (before ++ after)).Nodup)
    (inner : Path next list nodes list) (innerDistinct : nodes.Nodup) (nonempty : nodes ≠ [])
    (apart : ∀ node ∈ nodes, node ∉ here :: (before ++ after))
    (links : Splices next other here before list nodes after there) :
    Path other here (before ++ (nodes ++ after)) there := by
  obtain ⟨kept, into, out⟩ := links
  have beforeDistinct : (here :: before).Nodup :=
    (List.nodup_append.mp (show (here :: before ++ after).Nodup from distinct)).1
  have lastInner : nodes.getLastD list ∈ nodes := getLastD_mem nonempty
  have lastBefore : before.getLastD here ∈ here :: (before ++ after) :=
    List.mem_append_left after List.getLastD_mem_cons
  have same : nodes.getLastD (before.getLastD here) = nodes.getLastD list := getLastD_congr nonempty
  have outer : ∀ node ∈ here :: (before ++ after), node ≠ before.getLastD here → other node = next node := by
    intro node member notLast
    exact kept node (List.mem_append_left nodes member) notLast fun equal => apart _ lastInner (equal ▸ member)
  refine Path.join ?_ (Path.join ?_ ?_)
  · refine path.front.redirect beforeDistinct (fun node member => outer node (List.mem_append_left after member)) ?_
    rw [into, headD_append nonempty]
  · refine inner.move innerDistinct ?_ ?_ ?_
    · rw [into, headD_congr nonempty]
    · rw [same, out]
    · rw [same]
      intro node member notLast
      exact kept node (List.mem_append_right _ member)
        (fun equal => apart node member (equal ▸ lastBefore)) notLast
  · rw [same]
    refine path.back.enter (fun node member => ?_) out
    exact outer node (List.mem_cons_of_mem here (List.mem_append_right before member)) (ne_last_of_mem distinct member)

/-- A node takes the place of another one. -/
theorem Path.replace (path : Path next here (before ++ old :: after) there)
    (distinct : (here :: (before ++ old :: after)).Nodup)
    (kept : ∀ node ∈ here :: (before ++ after), node ≠ before.getLastD here → other node = next node)
    (into : other (before.getLastD here) = some new) (out : other new = some (after.headD there)) :
    Path other here (before ++ new :: after) there := by
  obtain ⟨towards, onwards⟩ := Path.append.mp path
  have front : (here :: before).Nodup :=
    (List.nodup_append.mp (show (here :: before ++ old :: after).Nodup from distinct)).1
  refine Path.append.mpr ⟨towards.redirect front ?_ into, onwards.enter ?_ out⟩
  · intro node member notLast
    exact kept node (List.mem_append_left after member) notLast
  · intro node member
    have behind : node ≠ before.getLastD here := ne_last_of_mem distinct (List.mem_cons_of_mem old member)
    exact kept node (List.mem_cons_of_mem here (List.mem_append_right before member)) behind

/-- Two neighbours, each of which may be the head. -/
theorem Circle.between (circle : Circle next prev head (before ++ after)) :
    next (before.getLastD head) = some (after.headD head) ∧ prev (after.headD head) = some (before.getLastD head) := by
  have turned := circle.backward
  rw [List.reverse_append] at turned
  have back := turned.back.first
  rw [getLastD_reverse, headD_reverse] at back
  exact ⟨circle.forward.back.first, back⟩

/-- There is one way only to link the nodes of a circle. -/
theorem Circle.links (circle : Circle next prev head nodes) (same : Circle nextAfter prevAfter head nodes) :
    ∀ node ∈ head :: nodes, nextAfter node = next node ∧ prevAfter node = prev node := by
  intro node member
  rcases List.mem_cons.mp member with rfl | inside
  · exact ⟨same.forward.first.trans circle.forward.first.symm, same.backward.first.trans circle.backward.first.symm⟩
  · obtain ⟨before, behind, rfl⟩ := List.append_of_mem inside
    obtain ⟨onwards, back⟩ := circle.neighbours
    obtain ⟨onwardsAfter, backAfter⟩ := same.neighbours
    exact ⟨onwardsAfter.trans onwards.symm, backAfter.trans back.symm⟩

/-- The nodes of one circle come into another one. -/
theorem Circle.splice (circle : Circle next prev head (before ++ after)) (inner : Circle next prev list nodes)
    (nonempty : nodes ≠ []) (apart : ∀ node ∈ nodes, node ∉ head :: (before ++ after))
    (nextLinks : Splices next nextAfter head before list nodes after head)
    (prevLinks : Splices prev prevAfter head after.reverse list nodes.reverse before.reverse head) :
    Circle nextAfter prevAfter head (before ++ (nodes ++ after)) := by
  have innerDistinct := (List.nodup_cons.mp inner.distinct).2
  constructor
  · have moved : (head :: (before ++ (nodes ++ after))).Perm (head :: (before ++ after) ++ nodes) := by
      rw [List.cons_append]
      refine List.Perm.cons head ?_
      rw [List.append_assoc]
      exact List.Perm.append_left before List.perm_append_comm
    refine moved.nodup_iff.mpr (List.nodup_append.mpr ⟨circle.distinct, innerDistinct, ?_⟩)
    intro outside member inside innerMember equal
    exact apart inside innerMember (equal ▸ member)
  · exact circle.forward.splice circle.distinct inner.forward innerDistinct nonempty apart nextLinks
  · have turned := circle.turn
    have innerTurned := inner.turn
    rw [List.reverse_append] at turned
    rw [List.reverse_append, List.reverse_append, List.append_assoc]
    refine turned.forward.splice turned.distinct innerTurned.forward (List.nodup_reverse.mpr innerDistinct)
      (fun none => nonempty (List.reverse_eq_nil_iff.mp none)) ?_ prevLinks
    intro node member
    have outside := apart node (List.mem_reverse.mp member)
    rw [List.mem_cons, List.mem_append] at outside ⊢
    rw [List.mem_reverse, List.mem_reverse, or_comm (b := node ∈ before)]
    exact outside

/-- The first nodes of a circle become one of their own. -/
theorem Circle.cutFront (circle : Circle next prev head (front ++ back))
    (fresh : list ∉ head :: (front ++ back))
    (nextKept : ∀ node ∈ front, node ≠ front.getLastD list → nextAfter node = next node)
    (prevKept : ∀ node ∈ front, node ≠ front.headD list → prevAfter node = prev node)
    (nextInto : nextAfter list = some (front.headD list)) (nextOut : nextAfter (front.getLastD list) = some list)
    (prevInto : prevAfter list = some (front.getLastD list)) (prevOut : prevAfter (front.headD list) = some list) :
    Circle nextAfter prevAfter list front := by
  have distinct : front.Nodup := (List.nodup_append.mp (List.nodup_cons.mp circle.distinct).2).1
  have absent : list ∉ front := fun member => fresh (List.mem_cons_of_mem head (List.mem_append_left back member))
  have turned := circle.backward
  rw [List.reverse_append] at turned
  constructor
  · exact List.nodup_cons.mpr ⟨absent, distinct⟩
  · exact circle.forward.front.move distinct nextInto nextOut nextKept
  · refine turned.back.move (List.nodup_reverse.mpr distinct) ?_ ?_ ?_
    · rw [headD_reverse, prevInto]
    · rw [getLastD_reverse, prevOut]
    · rw [getLastD_reverse]
      intro node member
      exact prevKept node (List.mem_reverse.mp member)

/-- The last nodes of a circle stay. -/
theorem Circle.cutBack (circle : Circle next prev head (front ++ back))
    (nextKept : ∀ node ∈ back, nextAfter node = next node)
    (prevKept : ∀ node ∈ head :: back, node ≠ back.headD head → prevAfter node = prev node)
    (nextInto : nextAfter head = some (back.headD head)) (prevInto : prevAfter (back.headD head) = some head) :
    Circle nextAfter prevAfter head back := by
  have fewer : (head :: back).Sublist (head :: (front ++ back)) := (List.sublist_append_right front back).cons_cons head
  have distinct := circle.distinct.sublist fewer
  have turned := circle.backward
  rw [List.reverse_append] at turned
  have memReverse : ∀ node, node ∈ head :: back.reverse ↔ node ∈ head :: back := fun node => by
    rw [List.mem_cons, List.mem_reverse, List.mem_cons]
  constructor
  · exact distinct
  · exact circle.forward.back.enter nextKept nextInto
  · obtain ⟨outside, backDistinct⟩ := List.nodup_cons.mp distinct
    have reversed : (head :: back.reverse).Nodup :=
      List.nodup_cons.mpr ⟨fun member => outside (List.mem_reverse.mp member), List.nodup_reverse.mpr backDistinct⟩
    refine turned.front.redirect reversed ?_ ?_
    · rw [getLastD_reverse]
      intro node member
      exact prevKept node ((memReverse node).mp member)
    · rw [getLastD_reverse, prevInto]

/-- Another node becomes the head of a circle. -/
theorem Circle.rehead (circle : Circle next prev head nodes) (fresh : new ∉ nodes)
    (nextKept : ∀ node ∈ nodes, node ≠ nodes.getLastD new → nextAfter node = next node)
    (prevKept : ∀ node ∈ nodes, node ≠ nodes.headD new → prevAfter node = prev node)
    (nextInto : nextAfter new = some (nodes.headD new)) (nextOut : nextAfter (nodes.getLastD new) = some new)
    (prevInto : prevAfter new = some (nodes.getLastD new)) (prevOut : prevAfter (nodes.headD new) = some new) :
    Circle nextAfter prevAfter new nodes := by
  have distinct := (List.nodup_cons.mp circle.distinct).2
  constructor
  · exact List.nodup_cons.mpr ⟨fresh, distinct⟩
  · exact circle.forward.move distinct nextInto nextOut nextKept
  · refine circle.backward.move (List.nodup_reverse.mpr distinct) ?_ ?_ ?_
    · rw [headD_reverse, prevInto]
    · rw [getLastD_reverse, prevOut]
    · rw [getLastD_reverse]
      intro node member
      exact prevKept node (List.mem_reverse.mp member)

theorem Circle.replace (circle : Circle next prev head (before ++ old :: after))
    (fresh : new ∉ head :: (before ++ after))
    (nextKept : ∀ node ∈ head :: (before ++ after), node ≠ before.getLastD head → nextAfter node = next node)
    (prevKept : ∀ node ∈ head :: (before ++ after), node ≠ after.headD head → prevAfter node = prev node)
    (nextInto : nextAfter (before.getLastD head) = some new) (nextOut : nextAfter new = some (after.headD head))
    (prevInto : prevAfter (after.headD head) = some new) (prevOut : prevAfter new = some (before.getLastD head)) :
    Circle nextAfter prevAfter head (before ++ new :: after) := by
  have fewer : (head :: (before ++ after)).Sublist (head :: (before ++ old :: after)) :=
    ((List.sublist_cons_self old after).append_left before).cons_cons head
  have turned := circle.turn
  rw [List.reverse_append, List.reverse_cons, List.append_assoc, List.singleton_append] at turned
  constructor
  · have moved : (head :: (before ++ new :: after)).Perm (new :: head :: (before ++ after)) :=
      (List.perm_middle.cons head).trans (List.Perm.swap new head _)
    exact moved.nodup_iff.mpr (List.nodup_cons.mpr ⟨fresh, circle.distinct.sublist fewer⟩)
  · exact circle.forward.replace circle.distinct nextKept nextInto nextOut
  · rw [List.reverse_append, List.reverse_cons, List.append_assoc, List.singleton_append]
    refine turned.forward.replace turned.distinct ?_ ?_ ?_
    · rw [getLastD_reverse]
      intro node member
      rw [← List.reverse_append, List.mem_cons, List.mem_reverse, ← List.mem_cons] at member
      exact prevKept node member
    · rw [getLastD_reverse, prevInto]
    · rw [headD_reverse, prevOut]

/-- All nodes of some circles, each given by its head and the nodes behind it. -/
def cells (rings : List (α × List α)) : List α := rings.flatMap fun ring => ring.1 :: ring.2

@[simp] theorem cells_nil : cells ([] : List (α × List α)) = [] := rfl

@[simp] theorem cells_cons (ring : α × List α) (rings : List (α × List α)) :
    cells (ring :: rings) = ring.1 :: (ring.2 ++ cells rings) := rfl

theorem cells_perm {rings others : List (α × List α)} (perm : rings.Perm others) : (cells rings).Perm (cells others) :=
  perm.flatMap_right _

theorem mem_cells {rings : List (α × List α)} : node ∈ cells rings ↔ ∃ ring ∈ rings, node ∈ ring.1 :: ring.2 :=
  List.mem_flatMap

def Rings (next prev : α → Option α) (rings : List (α × List α)) : Prop :=
  ∀ ring ∈ rings, Circle next prev ring.1 ring.2

variable {ring : α × List α} {rings : List (α × List α)}

theorem rings_cons : Rings next prev (ring :: rings) ↔ Circle next prev ring.1 ring.2 ∧ Rings next prev rings :=
  List.forall_mem_cons

/-- Circles are kept where no link of theirs is changed. -/
theorem Rings.congr (circles : Rings next prev rings)
    (same : ∀ node ∈ cells rings, nextAfter node = next node ∧ prevAfter node = prev node) :
    Rings nextAfter prevAfter rings := fun ring member =>
  (circles ring member).congr fun node inside => same node (mem_cells.mpr ⟨ring, member, inside⟩)

section Update

variable [DecidableEq α] {value : Option α} (circles : Rings next prev rings) (outside : node ∉ cells rings)
include circles outside

theorem Rings.updateNext : Rings (Function.update next node value) prev rings :=
  circles.congr fun _ member => ⟨Function.update_of_ne (ne_of_mem_of_not_mem member outside) _ _, rfl⟩

theorem Rings.updatePrev : Rings next (Function.update prev node value) rings :=
  circles.congr fun _ member => ⟨rfl, Function.update_of_ne (ne_of_mem_of_not_mem member outside) _ _⟩

end Update

end Circular

end Dwadelib
