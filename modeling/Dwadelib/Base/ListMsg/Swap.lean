import Dwadelib.Base.ListMsg.Links

namespace Dwadelib.ListMsg

/-! # Two messages change places

The links forward are those of the exchanged sequence. Of the links back, the one of the message behind
the second one still leads to it.
-/

open Circular Linked

variable {heap : Heap} {head a b prev here target tmp : Address} {front before middle rest : List Address}
  {next : Address → Option Address}

/-- `here` is in front of the second message and may be the first one; `tmp` is behind the first one
when the second one was put in front of it. -/
theorem listSwap_links (liveA : a ∈ heap) (liveB : b ∈ heap) (livePrev : prev ∈ heap) (liveHere : here ∈ heap)
    (liveTmp : tmp ∈ heap) (apart : b ≠ a) (notPrev : b ≠ prev) (notHere : b ≠ here)
    (prevA : heap.prevOf a = some prev) (prevB : heap.prevOf b = some here) (nextB : heap.nextOf b = some target)
    (nextA : Function.update (Function.update heap.nextOf prev (some b)) here (some a) a = some tmp) :
    ∃ after, listSwap a b heap = some after ∧ Relinked heap after
      (Function.update (Function.update
        (Function.update (Function.update heap.nextOf prev (some b)) here (some a)) a (some target)) b (some tmp))
      (Function.update (Function.update
        (Function.update (Function.update heap.prevOf a (some here)) b (some prev)) tmp (some b)) tmp (some a)) := by
  obtain ⟨one, first, links_one⟩ := (Relinked.refl heap).setNext b livePrev
  obtain ⟨two, second, links_two⟩ := links_one.setPrev here liveA
  obtain ⟨three, third, links_three⟩ := links_two.setNext a liveHere
  obtain ⟨four, fourth, links_four⟩ := links_three.setPrev prev liveB
  obtain ⟨five, fifth, links_five⟩ := links_four.setPrev b liveTmp
  obtain ⟨six, sixth, links_six⟩ := links_five.setNext target liveA
  obtain ⟨seven, seventh, links_seven⟩ := links_six.setNext tmp liveB
  obtain ⟨eight, eighth, links_eight⟩ := links_seven.setPrev a liveTmp
  have prevA_one : one.prevOf a = some prev := by rw [links_one.prev, prevA]
  have prevB_one : one.prevOf b = some here := by rw [links_one.prev, prevB]
  have prevB_two : two.prevOf b = some here := by rw [links_two.prev, Function.update_of_ne apart, prevB]
  have nextA_four : four.nextOf a = some tmp := by rw [links_four.next, nextA]
  have nextA_five : five.nextOf a = some tmp := by rw [links_five.next, nextA]
  have nextB_five : five.nextOf b = some target := by
    rw [links_five.next, Function.update_of_ne notHere, Function.update_of_ne notPrev, nextB]
  have nextB_seven : seven.nextOf b = some tmp := by rw [links_seven.next, Function.update_self]
  refine ⟨eight, ?_, links_eight⟩
  simp only [listSwap, prevA, first, prevA_one, prevB_one, second, prevB_two, third, fourth, nextA_four, fifth,
    nextA_five, nextB_five, sixth, seventh, nextB_seven, eighth, Option.bind_eq_bind, Option.bind_some]

/-- Of what lies before, between and behind two messages no two are the same. -/
structure Separate (front : List Address) (a : Address) (middle : List Address) (b : Address) (rest : List Address) :
    Prop where
  different : b ≠ a
  inFront : ∀ node ∈ front, node ≠ a ∧ node ≠ b ∧ node ∉ middle
  inMiddle : ∀ node ∈ middle, node ≠ a ∧ node ≠ b
  inRest : ∀ node ∈ rest, node ≠ a ∧ node ≠ b ∧ node ∉ middle

theorem separate_of_nodup (distinct : (head :: (before ++ a :: (middle ++ b :: rest))).Nodup) :
    Separate (head :: before) a middle b rest := by
  obtain ⟨-, back, apart⟩ :=
    List.nodup_append.mp (show (head :: before ++ a :: (middle ++ b :: rest)).Nodup from distinct)
  obtain ⟨outside, backDistinct⟩ := List.nodup_cons.mp back
  obtain ⟨-, behind, apartMiddle⟩ := List.nodup_append.mp backDistinct
  obtain ⟨outsideRest, -⟩ := List.nodup_cons.mp behind
  rw [List.mem_append, List.mem_cons, not_or, not_or] at outside
  constructor
  · exact fun same => outside.2.1 same.symm
  · intro node member
    have inFront := apart node member
    refine ⟨inFront a List.mem_cons_self, inFront b ?_, fun inside => inFront node ?_ rfl⟩
    · exact List.mem_cons_of_mem a (List.mem_append_right middle List.mem_cons_self)
    · exact List.mem_cons_of_mem a (List.mem_append_left _ inside)
  · intro node member
    exact ⟨ne_of_mem_of_not_mem member outside.1, apartMiddle node member b List.mem_cons_self⟩
  · intro node member
    refine ⟨ne_of_mem_of_not_mem member outside.2.2, ne_of_mem_of_not_mem member outsideRest, fun inside => ?_⟩
    exact apartMiddle node inside node (List.mem_cons_of_mem b member) rfl

theorem Separate.behind (separate : Separate (head :: before) a middle b rest) :
    rest.headD head ≠ a ∧ rest.headD head ≠ b ∧ rest.headD head ∉ middle := by
  cases rest with
  | nil => exact separate.inFront head List.mem_cons_self
  | cons node rest => exact separate.inRest node List.mem_cons_self

theorem Separate.onwards (separate : Separate front a middle b rest) : middle.headD a ≠ b := by
  cases middle with
  | nil => exact separate.different.symm
  | cons node middle => exact (separate.inMiddle node List.mem_cons_self).2

/-- The links back that the change leaves. -/
def backLinks (prev : Address → Option Address) (head : Address) (before : List Address) (a : Address)
    (middle : List Address) (b : Address) : Address → Option Address :=
  Function.update (Function.update (Function.update (Function.update prev a (some (middle.getLastD a)))
    b (some (before.getLastD head))) (middle.headD a) (some b)) (middle.headD a) (some a)

section BackLinks

variable {prevOf : Address → Option Address} {node : Address}

theorem backLinks_of_ne (notA : node ≠ a) (notB : node ≠ b) (notFollowing : node ≠ middle.headD a) :
    backLinks prevOf head before a middle b node = prevOf node := by
  rw [backLinks, Function.update_of_ne notFollowing, Function.update_of_ne notFollowing, Function.update_of_ne notB,
    Function.update_of_ne notA]

theorem backLinks_second (notFollowing : b ≠ middle.headD a) :
    backLinks prevOf head before a middle b b = some (before.getLastD head) := by
  rw [backLinks, Function.update_of_ne notFollowing, Function.update_of_ne notFollowing, Function.update_self]

theorem ne_following (notA : node ≠ a) (notMiddle : node ∉ middle) : node ≠ middle.headD a := by
  cases middle with
  | nil => exact notA
  | cons following middle => exact (List.ne_and_not_mem_of_not_mem_cons notMiddle).1

variable (circle : Circle next prevOf head (before ++ a :: (middle ++ b :: rest)))
include circle

/-- Backwards the first message and those between are not met. -/
theorem backLinks_path : Path (backLinks prevOf head before a middle b) head (rest.reverse ++ b :: before.reverse) head := by
  have separate := separate_of_nodup circle.distinct
  have turned := circle.backward
  have reversed : (before ++ a :: (middle ++ b :: rest)).reverse =
      rest.reverse ++ b :: (middle.reverse ++ a :: before.reverse) := by
    simp
  rw [reversed] at turned
  obtain ⟨towards, passing⟩ := Path.append.mp turned
  obtain ⟨-, onwards⟩ := Path.append.mp passing
  refine Path.append.mpr ⟨towards.congr ?_, onwards.enter ?_ ?_⟩
  · intro node member
    have apart : node ≠ a ∧ node ≠ b ∧ node ∉ middle := by
      rcases List.mem_cons.mp member with rfl | inside
      · exact separate.inFront node List.mem_cons_self
      · exact separate.inRest node (List.mem_reverse.mp inside)
    exact backLinks_of_ne apart.1 apart.2.1 (ne_following apart.1 apart.2.2)
  · intro node member
    have apart := separate.inFront node (List.mem_cons_of_mem head (List.mem_reverse.mp member))
    exact backLinks_of_ne apart.1 apart.2.1 (ne_following apart.1 apart.2.2)
  · rw [headD_reverse]
    exact backLinks_second separate.onwards.symm

/-- With two more links changed, all lead back as they should. -/
theorem backLinks_exchanges : Exchanges prevOf
    (Function.update (Function.update (backLinks prevOf head before a middle b) (middle.headD a) (some b))
      (rest.headD head) (some a)) head rest.reverse b middle.reverse a before.reverse head := by
  have separate := separate_of_nodup circle.distinct
  obtain ⟨behind_ne_a, behind_ne_b, notMiddle⟩ := separate.behind
  have behind_ne_following : rest.headD head ≠ middle.headD a := ne_following behind_ne_a notMiddle
  constructor
  · intro node _ notBehind notB notFollowing notA
    rw [getLastD_reverse] at notBehind notFollowing
    have notFirst : node ≠ middle.headD a := by
      cases middle with
      | nil => exact notA
      | cons following middle => exact notFollowing
    rw [Function.update_of_ne notBehind, Function.update_of_ne notFirst, backLinks_of_ne notA notB notFirst]
  · rw [getLastD_reverse, Function.update_self]
  · rw [headD_reverse, Function.update_of_ne behind_ne_a.symm]
    cases middle with
    | nil => exact Function.update_self ..
    | cons following middle =>
        have apart : a ≠ (following :: middle).headD a := (separate.inMiddle following List.mem_cons_self).1.symm
        rw [Function.update_of_ne apart, backLinks, Function.update_of_ne apart, Function.update_of_ne apart,
          Function.update_of_ne separate.different.symm, Function.update_self, List.getLastD_cons, List.getLastD_cons]
  · rw [getLastD_reverse, Function.update_of_ne behind_ne_following.symm, Function.update_self]
  · rw [headD_reverse, Function.update_of_ne behind_ne_b.symm, Function.update_of_ne separate.onwards.symm,
      backLinks_second separate.onwards.symm]

end BackLinks

section Circle

variable (circle : Circle heap.nextOf heap.prevOf head (before ++ a :: (middle ++ b :: rest)))
  (live : ∀ node ∈ head :: (before ++ a :: (middle ++ b :: rest)), node ∈ heap)
include circle live

theorem listSwap_circle :
    ∃ after, listSwap a b heap = some after ∧ after.heldOf = heap.heldOf ∧
      Exchanges heap.nextOf after.nextOf head before a middle b rest head ∧
      after.prevOf = backLinks heap.prevOf head before a middle b := by
  have separate := separate_of_nodup circle.distinct
  have front : before.getLastD head ∈ head :: before := List.getLastD_mem_cons
  have between : middle.getLastD a ∈ a :: middle := List.getLastD_mem_cons
  have onwards : middle.headD a ∈ a :: middle := by cases middle <;> simp
  have inBack : ∀ node ∈ a :: middle, node ∈ head :: (before ++ a :: (middle ++ b :: rest)) := fun node member =>
    List.mem_append_right (head :: before) (List.mem_append_left (b :: rest) member)
  have liveA := live a (inBack a List.mem_cons_self)
  have liveB := live b (List.mem_append_right (head :: before) (List.mem_append_right (a :: middle) List.mem_cons_self))
  have livePrev := live _ (List.mem_append_left _ front)
  obtain ⟨prev_ne_a, prev_ne_b, notMiddle⟩ := separate.inFront _ front
  have here_ne_b : middle.getLastD a ≠ b := by
    rcases List.mem_cons.mp between with same | inside
    · rw [same]
      exact separate.different.symm
    · exact (separate.inMiddle _ inside).2
  have prev_ne_here : before.getLastD head ≠ middle.getLastD a := by
    rcases List.mem_cons.mp between with same | inside
    · rw [same]
      exact prev_ne_a
    · exact fun equal => notMiddle (equal ▸ inside)
  have regrouped : before ++ a :: (middle ++ b :: rest) = (before ++ a :: middle) ++ b :: rest := by simp
  obtain ⟨next_a, prev_a⟩ := circle.neighbours
  obtain ⟨next_b, prev_b⟩ := (regrouped ▸ circle).neighbours
  have last : (before ++ a :: middle).getLastD head = middle.getLastD a := by
    rw [List.getLastD_eq_getLast?, List.getLast?_append_cons, ← List.getLastD_eq_getLast?, List.getLastD_cons]
  rw [last] at prev_b
  have tmp : Function.update (Function.update heap.nextOf (before.getLastD head) (some b)) (middle.getLastD a)
      (some a) a = some (middle.headD a) := by
    cases middle with
    | nil => exact Function.update_self ..
    | cons node middle =>
        have apart : a ≠ middle.getLastD node := (separate.inMiddle _ List.getLastD_mem_cons).1.symm
        rw [List.getLastD_cons, Function.update_of_ne apart, Function.update_of_ne prev_ne_a.symm, next_a]
        rfl
  obtain ⟨after, swapped, next_after, prev_after, commands⟩ := listSwap_links liveA liveB livePrev
    (live _ (inBack _ between)) (live _ (inBack _ onwards)) separate.different prev_ne_b.symm here_ne_b.symm prev_a
    prev_b next_b tmp
  refine ⟨after, swapped, commands, ?_, prev_after⟩
  constructor
  · intro node _ notPrev notA notHere notB
    rw [next_after, Function.update_of_ne notB, Function.update_of_ne notA, Function.update_of_ne notHere,
      Function.update_of_ne notPrev]
  · rw [next_after, Function.update_of_ne prev_ne_b, Function.update_of_ne prev_ne_a,
      Function.update_of_ne prev_ne_here, Function.update_self]
  · rw [next_after, Function.update_self]
  · rw [next_after]
    cases middle with
    | nil => exact Function.update_self ..
    | cons node middle =>
        obtain ⟨notA, notB⟩ := separate.inMiddle _ (List.getLastD_mem_cons : middle.getLastD node ∈ node :: middle)
        rw [List.getLastD_cons, List.getLastD_cons, Function.update_of_ne notB, Function.update_of_ne notA,
          Function.update_self]
  · rw [next_after, Function.update_of_ne separate.different.symm, Function.update_self]

/-- All links but two are those of the exchanged sequence. -/
theorem listSwap_repaired :
    ∃ after, listSwap a b heap = some after ∧
      Circle after.nextOf (Function.update (Function.update after.prevOf (middle.headD a) (some b))
        (rest.headD head) (some a)) head (before ++ b :: (middle ++ a :: rest)) := by
  obtain ⟨after, swapped, -, nextLinks, backward⟩ := listSwap_circle circle live
  have prevLinks := backLinks_exchanges circle
  rw [← backward] at prevLinks
  exact ⟨after, swapped, circle.exchange nextLinks prevLinks⟩

/-- The messages are met in the new order, but on the way back the first one and those between the two
are left out. -/
theorem listSwap_walks :
    ∃ after, listSwap a b heap = some after ∧ (∀ node, node ∈ after ↔ node ∈ heap) ∧
      walk head after.nextOf after = .returned (before ++ b :: (middle ++ a :: rest)) ∧
      Path after.prevOf head (rest.reverse ++ b :: before.reverse) head ∧
      (head :: (rest.reverse ++ b :: before.reverse)).Nodup ∧
      ∀ node ∈ head :: (rest.reverse ++ b :: before.reverse), node ∈ after := by
  obtain ⟨after, swapped, commands, nextLinks, backward⟩ := listSwap_circle circle live
  have exchanged := circle.exchange nextLinks (backLinks_exchanges circle)
  have same : ∀ node, node ∈ after ↔ node ∈ heap := fun node => mem_congr commands
  have liveExchanged : ∀ node ∈ head :: (before ++ b :: (middle ++ a :: rest)), node ∈ after := fun node member =>
    (same node).mpr (live node ((perm_exchange.cons head).mem_iff.mp member))
  have fewer : (rest.reverse ++ b :: before.reverse).Sublist (before ++ a :: (middle ++ b :: rest)).reverse := by
    have reversed : (before ++ a :: (middle ++ b :: rest)).reverse =
        rest.reverse ++ b :: ((middle.reverse ++ [a]) ++ before.reverse) := by
      simp
    rw [reversed]
    exact ((List.sublist_append_right _ _).cons_cons b).append_left rest.reverse
  refine ⟨after, swapped, same, ?_, ?_, ?_, ?_⟩
  · exact walk_round_trip exchanged.forward exchanged.distinct liveExchanged
  · rw [backward]
    exact backLinks_path circle
  · exact (fewer.cons_cons head).nodup circle.turn.distinct
  · intro node member
    exact (same node).mpr (forall_mem_reverse live node ((fewer.cons_cons head).subset member))

/-- The messages that are left out are never freed. -/
theorem destoryList_swapped :
    ∃ after final, listSwap a b heap = some after ∧
      destoryList head after = .returned (final, rest.reverse ++ b :: before.reverse) ∧
      ∀ node ∈ a :: middle, node ∈ final := by
  have separate := separate_of_nodup circle.distinct
  obtain ⟨after, swapped, same, -, path, distinct, liveBack⟩ := listSwap_walks circle live
  obtain ⟨final, returned, -, commands⟩ := destoryList_path path distinct liveBack
  refine ⟨after, final, swapped, returned, ?_⟩
  intro node member
  have spared : node ∉ rest.reverse ++ b :: before.reverse := by
    intro freed
    have apart : ∀ other ∈ rest.reverse ++ b :: before.reverse, other ≠ a ∧ other ∉ middle := by
      intro other inside
      rcases List.mem_append.mp inside with behind | inFront
      · have outside := separate.inRest other (List.mem_reverse.mp behind)
        exact ⟨outside.1, outside.2.2⟩
      · rcases List.mem_cons.mp inFront with rfl | earlier
        · exact ⟨separate.different, fun inMiddle => (separate.inMiddle other inMiddle).2 rfl⟩
        · have outside := separate.inFront other (List.mem_cons_of_mem head (List.mem_reverse.mp earlier))
          exact ⟨outside.1, outside.2.2⟩
    rcases List.mem_cons.mp member with first | inMiddle
    · exact (apart node freed).1 first
    · exact (apart node freed).2 inMiddle
  have inHeap : node ∈ heap :=
    live node (List.mem_append_right (head :: before) (List.mem_append_left (b :: rest) member))
  have kept : final.heldOf node = after.heldOf node := by
    rw [commands]
    exact if_neg spared
  rw [mem_iff_heldOf, kept, ← mem_iff_heldOf, same]
  exact inHeap

/-- Whatever is exchanged, the links back are not those of the new order. -/
theorem listSwap_never_circle :
    ∃ after, listSwap a b heap = some after ∧
      walk head after.nextOf after = .returned (before ++ b :: (middle ++ a :: rest)) ∧
      walk head after.prevOf after = .returned (rest.reverse ++ b :: before.reverse) ∧
      ¬ Circle after.nextOf after.prevOf head (before ++ b :: (middle ++ a :: rest)) := by
  obtain ⟨after, swapped, same, forward, path, distinct, liveBack⟩ := listSwap_walks circle live
  have backward : walk head after.prevOf after = .returned (rest.reverse ++ b :: before.reverse) :=
    walk_round_trip path distinct liveBack
  refine ⟨after, swapped, forward, backward, ?_⟩
  intro exchanged
  have liveExchanged : ∀ node ∈ head :: (before ++ b :: (middle ++ a :: rest)), node ∈ after := fun node member =>
    (same node).mpr (live node ((perm_exchange.cons head).mem_iff.mp member))
  have expected := (walk_circle exchanged liveExchanged).2
  rw [backward, Outcome.returned.injEq] at expected
  have lengths := congrArg List.length expected
  simp only [List.length_append, List.length_cons, List.length_reverse] at lengths
  omega

end Circle

/-- Three messages behind a head. -/
def threeMessages : Heap :=
  (((AList.singleton 0 { held := 0, next := some 1, prev := some 3 }).insert
    1 { held := 1, next := some 2, prev := some 0 }).insert
      2 { held := 2, next := some 3, prev := some 1 }).insert 3 { held := 3, next := some 0, prev := some 2 }

theorem threeMessages_circle :
    Circle threeMessages.nextOf threeMessages.prevOf 0 [1, 2, 3] ∧ ∀ node ∈ [0, 1, 2, 3], node ∈ threeMessages :=
  ⟨⟨by decide, ⟨rfl, rfl, rfl, rfl⟩, ⟨rfl, rfl, rfl, rfl⟩⟩, by decide⟩

theorem listSwap_first_last :
    ∃ after, listSwap 1 3 threeMessages = some after ∧
      walk 0 after.nextOf after = .returned [3, 2, 1] ∧ walk 0 after.prevOf after = .returned [3] ∧
      ¬ Circle after.nextOf after.prevOf 0 [3, 2, 1] :=
  have circle : Circle threeMessages.nextOf threeMessages.prevOf 0 ([] ++ 1 :: ([2] ++ 3 :: [])) := threeMessages_circle.1
  listSwap_never_circle circle threeMessages_circle.2

/-- Two neighbours: the first one is not met on the way back. -/
theorem neighbours_not_circle :
    Circle threeMessages.nextOf threeMessages.prevOf 0 [1, 2, 3] ∧
      ∃ after, listSwap 1 2 threeMessages = some after ∧ walk 0 after.prevOf after = .returned [3, 2] ∧
        ¬ Circle after.nextOf after.prevOf 0 [2, 1, 3] := by
  refine ⟨threeMessages_circle.1, _, rfl, by decide, ?_⟩
  intro exchanged
  exact absurd exchanged.backward.2.1 (by decide)

end Dwadelib.ListMsg
