import Dwadelib.Linked.Lists

namespace Dwadelib

/-! # Rules for lists of linked cells

One rule for each way in which the links of cells are changed: which lists the heap stands for afterwards.
-/

namespace Linked

open Circular

variable {α β : Type} [DecidableEq α] {heap after : Heap α β} {layout : Layout α} {node new old head list entry : α}
  {before behind nodes front back loose : List α} {rest lists : List (α × List α)} {next prev : α → Option α}

/-- The links of a loose cell mean nothing. -/
theorem Represents.scribble (related : Represents heap layout) (member : node ∈ layout.loose)
    (relinked : Relinked heap after next prev)
    (same : ∀ kept, kept ≠ node → next kept = heap.nextOf kept ∧ prev kept = heap.prevOf kept) :
    Represents after layout :=
  related.relink relinked (.refl _) <| related.rings.congr fun kept inside =>
    same kept (ne_of_mem_of_not_mem inside (related.loose_outside member))

theorem Represents.initialise (related : Represents heap { lists := lists, loose := list :: loose })
    (relinked : Relinked heap after (Function.update heap.nextOf list (some list))
      (Function.update heap.prevOf list (some list))) :
    Represents after { lists := (list, []) :: lists, loose := loose } := by
  have outside := related.loose_outside List.mem_cons_self
  refine related.relink relinked List.perm_middle.symm (rings_cons.mpr ⟨Circle.empty ?_ ?_, ?_⟩)
  · exact Function.update_self ..
  · exact Function.update_self ..
  · exact (related.rings.updateNext outside).updatePrev outside

/-- A head without entries is its own list; it may be linked to itself once more. -/
theorem Represents.loosenHead (related : Represents heap { lists := (entry, []) :: rest, loose := loose })
    (relinked : Relinked heap after (Function.update heap.nextOf entry (some entry))
      (Function.update heap.prevOf entry (some entry))) :
    Represents after { lists := rest, loose := entry :: loose } := by
  have moved : Represents heap { lists := rest, loose := entry :: loose } :=
    related.rearrange List.perm_middle fun _ member => List.mem_cons_of_mem _ member
  refine moved.scribble List.mem_cons_self relinked fun kept differs => ?_
  exact ⟨Function.update_of_ne differs _ _, Function.update_of_ne differs _ _⟩

theorem Represents.create {held : β} (related : Represents heap layout) (fresh : node ∉ layout.cells) :
    ∃ after, heap.allocate node held = some after ∧
      Represents after { layout with loose := node :: layout.loose } := by
  have unused : node ∉ heap := fun live => fresh ((related.alive node).mp live)
  obtain ⟨after, allocated, nextAfter, prevAfter, heldAfter⟩ := allocate_links held unused
  have outside : node ∉ Circular.cells layout.lists := fun inside => fresh (List.mem_append_left _ inside)
  have moved : (Layout.cells { layout with loose := node :: layout.loose }).Perm (node :: layout.cells) :=
    List.perm_middle
  refine ⟨after, allocated, moved.nodup_iff.mpr (List.nodup_cons.mpr ⟨fresh, related.distinct⟩), fun kept => ?_, ?_⟩
  · rw [mem_iff_heldOf, heldAfter, moved.mem_iff, List.mem_cons, ← related.alive, mem_iff_heldOf]
    by_cases same : kept = node
    · rw [same, Function.update_self]
      exact iff_of_true rfl (.inl rfl)
    · rw [Function.update_of_ne same, or_iff_right same]
  · rw [nextAfter, prevAfter]
    exact (related.rings.updateNext outside).updatePrev outside

theorem Represents.release (related : Represents heap { lists := lists, loose := node :: loose }) :
    ∃ after, heap.free node = some after ∧ Represents after { lists := lists, loose := loose } := by
  obtain ⟨after, freed, nextAfter, prevAfter, heldAfter⟩ := free_links (related.live_loose List.mem_cons_self)
  have outside := related.loose_outside List.mem_cons_self
  have moved : (Layout.mk lists (node :: loose)).cells.Perm (node :: (Layout.mk lists loose).cells) := List.perm_middle
  obtain ⟨absent, distinct⟩ := List.nodup_cons.mp (moved.nodup_iff.mp related.distinct)
  refine ⟨after, freed, distinct, fun kept => ?_, ?_⟩
  · rw [mem_iff_heldOf, heldAfter]
    by_cases same : kept = node
    · rw [same, Function.update_self]
      exact iff_of_false Bool.false_ne_true absent
    · rw [Function.update_of_ne same, ← mem_iff_heldOf, related.alive, moved.mem_iff, List.mem_cons,
        or_iff_right same]
  · rw [nextAfter, prevAfter]
    exact (related.rings.updateNext outside).updatePrev outside

omit [DecidableEq α] in
theorem left_mem : before.getLastD head ∈ head :: (before ++ behind) :=
  List.mem_append_left behind List.getLastD_mem_cons

omit [DecidableEq α] in
theorem right_mem : behind.headD head ∈ head :: (before ++ behind) := by
  cases behind <;> simp

/-- A loose cell comes between two neighbours. -/
theorem Represents.insert
    (related : Represents heap { lists := (head, before ++ behind) :: rest, loose := new :: loose })
    (relinked : Relinked heap after
      (Function.update (Function.update heap.nextOf new (some (behind.headD head))) (before.getLastD head) (some new))
      (Function.update (Function.update heap.prevOf (behind.headD head) (some new)) new
        (some (before.getLastD head)))) :
    Represents after { lists := (head, before ++ new :: behind) :: rest, loose := loose } := by
  have absent := related.loose_outside List.mem_cons_self
  rw [cells_cons, List.mem_cons, List.mem_append, ← or_assoc, ← List.mem_cons] at absent
  obtain ⟨fresh, outside⟩ := not_or.mp absent
  have outsideLeft := related.outside left_mem
  have outsideRight := related.outside right_mem
  have apart : behind.headD head ≠ new := ne_of_mem_of_not_mem right_mem fresh
  refine related.relink relinked ?_ (rings_cons.mpr ⟨related.circle.insert fresh ?_ ?_, ?_⟩)
  · simp only [Layout.cells, cells_cons, List.cons_append, List.append_assoc]
    refine List.Perm.cons head (List.Perm.append_left before ?_)
    rw [← List.append_assoc, ← List.append_assoc]
    exact List.perm_middle.symm
  · intro node
    rw [Function.update_apply, Function.update_apply]
  · intro node
    rw [Function.update_apply, Function.update_apply]
    by_cases isNew : node = new
    · rw [isNew, if_pos rfl, if_neg apart.symm, if_pos rfl]
    · rw [if_neg isNew, if_neg isNew]
  · exact (((related.others.updateNext outside).updateNext outsideLeft).updatePrev outsideRight).updatePrev outside

/-- The neighbours of an entry are linked to each other. -/
theorem Represents.unlink
    (related : Represents heap { lists := (head, before ++ entry :: behind) :: rest, loose := loose })
    (relinked : Relinked heap after (Function.update heap.nextOf (before.getLastD head) (some (behind.headD head)))
      (Function.update heap.prevOf (behind.headD head) (some (before.getLastD head)))) :
    Represents after { lists := (head, before ++ behind) :: rest, loose := entry :: loose } := by
  have outsideLeft : before.getLastD head ∉ Circular.cells rest := related.outside left_mem
  have outsideRight : behind.headD head ∉ Circular.cells rest := by
    refine related.outside ?_
    cases behind <;> simp
  refine related.relink relinked ?_ (rings_cons.mpr ⟨related.circle.remove ?_ ?_, ?_⟩)
  · simp only [Layout.cells, cells_cons, List.cons_append, List.append_assoc]
    refine List.Perm.cons head (List.Perm.append_left before ?_)
    rw [← List.append_assoc, ← List.append_assoc]
    exact List.perm_middle
  · intro kept
    rw [Function.update_apply]
  · intro kept
    rw [Function.update_apply]
  · exact (related.others.updateNext outsideLeft).updatePrev outsideRight

/-- A loose cell gets the links of an entry and its neighbours' links. -/
theorem Represents.replaceEntry
    (related : Represents heap { lists := (head, before ++ old :: behind) :: rest, loose := new :: loose })
    (relinked : Relinked heap after
      (Function.update (Function.update heap.nextOf new (some (behind.headD head))) (before.getLastD head) (some new))
      (Function.update (Function.update heap.prevOf (behind.headD head) (some new)) new
        (some (before.getLastD head)))) :
    Represents after { lists := (head, before ++ new :: behind) :: rest, loose := old :: loose } := by
  have absent := related.loose_outside List.mem_cons_self
  rw [cells_cons, List.mem_cons, List.mem_append, ← or_assoc, ← List.mem_cons] at absent
  obtain ⟨apart, outside⟩ := not_or.mp absent
  have fewer : ∀ node ∈ head :: (before ++ behind), node ∈ head :: (before ++ old :: behind) :=
    (((List.sublist_cons_self old behind).append_left before).cons_cons head).subset
  have fresh : new ∉ head :: (before ++ behind) := fun member => apart (fewer new member)
  have left : before.getLastD head ∈ head :: (before ++ behind) := left_mem
  have right : behind.headD head ∈ head :: (before ++ behind) := right_mem
  refine related.relink relinked ?_ (rings_cons.mpr ⟨related.circle.replace fresh ?_ ?_ ?_ ?_ ?_ ?_, ?_⟩)
  · refine List.perm_iff_count.mpr fun node => ?_
    simp only [Layout.cells, cells_cons, List.count_append, List.count_cons]
    omega
  · intro node member notLast
    rw [Function.update_of_ne notLast, Function.update_of_ne (ne_of_mem_of_not_mem member fresh)]
  · intro node member notFirst
    rw [Function.update_of_ne (ne_of_mem_of_not_mem member fresh), Function.update_of_ne notFirst]
  · exact Function.update_self ..
  · rw [Function.update_of_ne (ne_of_mem_of_not_mem left fresh).symm, Function.update_self]
  · rw [Function.update_of_ne (ne_of_mem_of_not_mem right fresh), Function.update_self]
  · exact Function.update_self ..
  · exact (((related.others.updateNext outside).updateNext (related.outside (fewer _ left))).updatePrev
      (related.outside (fewer _ right))).updatePrev outside

/-- A loose cell gets the links of a head and its neighbours' links; those of the old head mean nothing. -/
theorem Represents.rehead (related : Represents heap { lists := (old, nodes) :: rest, loose := new :: loose })
    (relinked : Relinked heap after next prev)
    (nextLinks : ∀ node, node ≠ old → next node =
      Function.update (Function.update heap.nextOf new (some (nodes.headD new))) (nodes.getLastD new) (some new) node)
    (prevLinks : ∀ node, node ≠ old → prev node =
      Function.update (Function.update heap.prevOf (nodes.headD new) (some new)) new (some (nodes.getLastD new)) node) :
    Represents after { lists := (new, nodes) :: rest, loose := old :: loose } := by
  have absent := related.loose_outside List.mem_cons_self
  rw [cells_cons, List.mem_cons, List.mem_append, ← or_assoc, ← List.mem_cons] at absent
  obtain ⟨apart, outside⟩ := not_or.mp absent
  obtain ⟨newOld, fresh⟩ := not_or.mp (List.mem_cons.not.mp apart)
  obtain ⟨oldOutside, -⟩ := List.nodup_cons.mp related.circle.distinct
  have notOld : ∀ node ∈ nodes, node ≠ old := fun node member => ne_of_mem_of_not_mem member oldOutside
  have first : nodes = [] ∨ nodes.headD new ∈ nodes := by
    cases nodes with
    | nil => exact .inl rfl
    | cons node nodes => exact .inr List.mem_cons_self
  have last : nodes = [] ∨ nodes.getLastD new ∈ nodes := by
    rcases List.eq_nil_or_concat nodes with rfl | ⟨init, node, rfl⟩
    · exact .inl rfl
    · exact .inr (by simp)
  have atFirst : nodes.headD new ≠ old := by
    rcases first with rfl | member
    · exact newOld
    · exact notOld _ member
  have atLast : nodes.getLastD new ≠ old := by
    rcases last with rfl | member
    · exact newOld
    · exact notOld _ member
  refine related.relink relinked ?_ (rings_cons.mpr ⟨related.circle.rehead fresh ?_ ?_ ?_ ?_ ?_ ?_, ?_⟩)
  · refine List.perm_iff_count.mpr fun node => ?_
    simp only [Layout.cells, cells_cons, List.cons_append, List.count_append, List.count_cons]
    omega
  · intro node member notLast
    rw [nextLinks node (notOld node member), Function.update_of_ne notLast,
      Function.update_of_ne (ne_of_mem_of_not_mem member fresh)]
  · intro node member notFirst
    rw [prevLinks node (notOld node member), Function.update_of_ne (ne_of_mem_of_not_mem member fresh),
      Function.update_of_ne notFirst]
  · rw [nextLinks new newOld]
    rcases last with rfl | member
    · exact Function.update_self ..
    · rw [Function.update_of_ne (ne_of_mem_of_not_mem member fresh).symm, Function.update_self]
  · rw [nextLinks _ atLast, Function.update_self]
  · rw [prevLinks new newOld, Function.update_self]
  · rw [prevLinks _ atFirst]
    rcases first with rfl | member
    · exact Function.update_self ..
    · rw [Function.update_of_ne (ne_of_mem_of_not_mem member fresh), Function.update_self]
  · refine related.others.congr fun node inside => ?_
    have notRing : ∀ other ∈ old :: nodes, node ≠ other := fun other member equal =>
      related.outside member (equal ▸ inside)
    have notNew : node ≠ new := ne_of_mem_of_not_mem inside outside
    have notFirst : node ≠ nodes.headD new := by
      rcases first with rfl | member
      · exact notNew
      · exact notRing _ (List.mem_cons_of_mem old member)
    have notLast : node ≠ nodes.getLastD new := by
      rcases last with rfl | member
      · exact notNew
      · exact notRing _ (List.mem_cons_of_mem old member)
    have differs := notRing old List.mem_cons_self
    rw [nextLinks node differs, prevLinks node differs, Function.update_of_ne notLast, Function.update_of_ne notNew,
      Function.update_of_ne notNew, Function.update_of_ne notFirst]
    exact ⟨rfl, rfl⟩

/-- The first entries of a list become the ones of a loose cell. -/
theorem Represents.cut
    (related : Represents heap { lists := (head, front ++ back) :: rest, loose := list :: loose })
    (nonempty : front ≠ [])
    (relinked : Relinked heap after
      (Function.update (Function.update (Function.update heap.nextOf list (some (front.headD list)))
        (front.getLastD list) (some list)) head (some (back.headD head)))
      (Function.update (Function.update (Function.update heap.prevOf (front.headD list) (some list)) list
        (some (front.getLastD list))) (back.headD head) (some head))) :
    Represents after { lists := (list, front) :: (head, back) :: rest, loose := loose } := by
  have absent := related.loose_outside List.mem_cons_self
  rw [cells_cons, List.mem_cons, List.mem_append, ← or_assoc, ← List.mem_cons] at absent
  obtain ⟨fresh, outside⟩ := not_or.mp absent
  obtain ⟨headOutside, entriesDistinct⟩ := List.nodup_cons.mp related.circle.distinct
  obtain ⟨-, -, apart⟩ := List.nodup_append.mp entriesDistinct
  have first : front.headD list ∈ front := headD_mem nonempty
  have last : front.getLastD list ∈ front := getLastD_mem nonempty
  have inFront : ∀ node ∈ front, node ∈ head :: (front ++ back) := fun node member =>
    List.mem_cons_of_mem head (List.mem_append_left back member)
  have inBack : ∀ node ∈ head :: back, node ∈ head :: (front ++ back) :=
    ((List.sublist_append_right front back).cons_cons head).subset
  have newFirst : back.headD head ∈ head :: back := by
    cases back <;> simp
  have frontBack : ∀ node ∈ front, ∀ other ∈ head :: back, node ≠ other := by
    intro node member other inside equal
    rcases List.mem_cons.mp inside with same | behind
    · exact headOutside (List.mem_append_left back (same ▸ equal ▸ member))
    · exact apart node member other behind equal
  have notList : ∀ node ∈ head :: (front ++ back), node ≠ list := fun node member => ne_of_mem_of_not_mem member fresh
  refine related.relink relinked ?_ (rings_cons.mpr ⟨related.circle.cutFront fresh ?_ ?_ ?_ ?_ ?_ ?_,
    rings_cons.mpr ⟨related.circle.cutBack ?_ ?_ ?_ ?_, ?_⟩⟩)
  · refine List.perm_iff_count.mpr fun node => ?_
    simp only [Layout.cells, cells_cons, List.cons_append, List.count_append, List.count_cons]
    omega
  · intro node member notLast
    rw [Function.update_of_ne (frontBack node member head List.mem_cons_self), Function.update_of_ne notLast,
      Function.update_of_ne (notList node (inFront node member))]
  · intro node member notFirst
    rw [Function.update_of_ne (frontBack node member _ newFirst),
      Function.update_of_ne (notList node (inFront node member)), Function.update_of_ne notFirst]
  · rw [Function.update_of_ne (notList head List.mem_cons_self).symm,
      Function.update_of_ne (notList _ (inFront _ last)).symm, Function.update_self]
  · rw [Function.update_of_ne (frontBack _ last head List.mem_cons_self), Function.update_self]
  · rw [Function.update_of_ne (notList _ (inBack _ newFirst)).symm, Function.update_self]
  · rw [Function.update_of_ne (frontBack _ first _ newFirst), Function.update_of_ne (notList _ (inFront _ first)),
      Function.update_self]
  · intro node member
    have behind := List.mem_cons_of_mem head member
    have notHead : node ≠ head := ne_of_mem_of_not_mem (List.mem_append_right front member) headOutside
    rw [Function.update_of_ne notHead, Function.update_of_ne (frontBack _ last node behind).symm,
      Function.update_of_ne (notList node (inBack node behind))]
  · intro node member notFirst
    rw [Function.update_of_ne notFirst, Function.update_of_ne (notList node (inBack node member)),
      Function.update_of_ne (frontBack _ first node member).symm]
  · exact Function.update_self ..
  · exact Function.update_self ..
  · exact (((((related.others.updateNext outside).updateNext (related.outside (inFront _ last))).updateNext
      (related.outside List.mem_cons_self)).updatePrev (related.outside (inFront _ first))).updatePrev
      outside).updatePrev (related.outside (inBack _ newFirst))

/-- The entries of one list come into another one, and its head is loose. -/
theorem Represents.splice
    (related : Represents heap { lists := (list, nodes) :: (head, before ++ behind) :: rest, loose := loose })
    (nonempty : nodes ≠ [])
    (relinked : Relinked heap after
      (Function.update (Function.update heap.nextOf (before.getLastD head) (some (nodes.headD list)))
        (nodes.getLastD list) (some (behind.headD head)))
      (Function.update (Function.update heap.prevOf (nodes.headD list) (some (before.getLastD head)))
        (behind.headD head) (some (nodes.getLastD list)))) :
    Represents after { lists := (head, before ++ (nodes ++ behind)) :: rest, loose := list :: loose } := by
  obtain ⟨circle, others⟩ := rings_cons.mp related.others
  have first : nodes.headD list ∈ nodes := headD_mem nonempty
  have last : nodes.getLastD list ∈ nodes := getLastD_mem nonempty
  have left : before.getLastD head ∈ head :: (before ++ behind) := left_mem
  have right : behind.headD head ∈ head :: (before ++ behind) := right_mem
  have outside : ∀ node ∈ nodes, node ∉ head :: (before ++ behind) ∧ node ∉ Circular.cells rest := by
    intro node member
    have absent := related.outside (List.mem_cons_of_mem list member)
    rw [cells_cons, List.mem_cons, List.mem_append, ← or_assoc, ← List.mem_cons] at absent
    exact not_or.mp absent
  have apart : ∀ node ∈ nodes, ∀ other ∈ head :: (before ++ behind), node ≠ other := fun node member other inside equal =>
    (outside node member).1 (equal ▸ inside)
  have swapped : Represents heap { lists := (head, before ++ behind) :: (list, nodes) :: rest, loose := loose } :=
    related.rearrange ((cells_perm (List.Perm.swap ..)).append_right loose) fun ring member =>
      (List.Perm.swap ..).mem_iff.mp member
  have outsideRing : ∀ node ∈ head :: (before ++ behind), node ∉ Circular.cells rest := by
    intro node member inside
    exact swapped.outside member (List.mem_cons_of_mem list (List.mem_append_right nodes inside))
  refine related.relink relinked ?_ (rings_cons.mpr ⟨circle.splice related.circle nonempty
    (fun node member => (outside node member).1) ⟨?_, ?_, ?_⟩ ⟨?_, ?_, ?_⟩, ?_⟩)
  · refine List.perm_iff_count.mpr fun node => ?_
    simp only [Layout.cells, cells_cons, List.cons_append, List.count_append, List.count_cons]
    omega
  · intro node member notLeft notLast
    rw [Function.update_of_ne notLast, Function.update_of_ne notLeft]
  · rw [Function.update_of_ne (apart _ last _ left).symm, Function.update_self]
  · exact Function.update_self ..
  · rw [getLastD_reverse, getLastD_reverse]
    intro node member notRight notFirst
    rw [Function.update_of_ne notRight, Function.update_of_ne notFirst]
  · rw [getLastD_reverse, headD_reverse, Function.update_self]
  · rw [getLastD_reverse, headD_reverse, Function.update_of_ne (apart _ first _ right), Function.update_self]
  · exact (((others.updateNext (outsideRing _ left)).updateNext (outside _ last).2).updatePrev
      (outside _ first).2).updatePrev (outsideRing _ right)

end Linked

end Dwadelib
