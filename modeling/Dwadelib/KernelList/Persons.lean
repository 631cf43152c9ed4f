import Dwadelib.KernelList.Refinement

namespace Dwadelib.KernelList

/-! # A list of persons

Persons are put into a list, the ones of one age are taken out of it while it is walked, and at the end all
others are. An entry that the walk stands on is unlinked and freed; the one behind it was read before.
-/

open Circular Linked

structure Person where
  age : Int
  weight : Int
  deriving DecidableEq, Repr

/-- The head is in a person as well, of which nothing else is set. -/
abbrev Persons := Heap (Option Person)

def personAt (heap : Persons) (pos : Address) : Option Person := (heap.heldOf pos).join

/-- Each person is put in front; the addresses are the ones that `malloc` returns. -/
def addPersons (head : Address) : List (Address × Person) → Persons → Option Persons
  | [], heap => some heap
  | person :: people, heap => do
      let heap ← heap.allocate person.1 (some person.2)
      let heap ← listAdd person.1 head heap
      addPersons head people heap

def printPersons (head : Address) (heap : Persons) : Outcome (List Person) :=
  each heap head heap.nextOf (fun pos printed => do
    let person ← .ofOption (personAt heap pos)
    return .next (printed ++ [person])) id []

/-- `list_del_init(pos); free(tmp);` -/
def releasePerson (pos : Address) (heap : Persons) : Option Persons := do
  let heap ← listDelInit pos heap
  heap.free pos

def deletePerson (age : Int) (pos : Address) (heap : Persons) : Option Persons := do
  let person ← personAt heap pos
  if person.age = age then releasePerson pos heap else some heap

structure Printed where
  before : List Person
  after : List Person
  heap : Persons

def listTest (head : Address) (people : List (Address × Person)) (age : Int) : Outcome Printed := do
  let heap ← .ofOption ((∅ : Persons).allocate head none)
  let heap ← .ofOption (initListHead head heap)
  let heap ← .ofOption (addPersons head people heap)
  let before ← printPersons head heap
  let heap ← listForEachSafe head (deletePerson age) heap
  let after ← printPersons head heap
  let heap ← listForEachSafe head releasePerson heap
  return { before := before, after := after, heap := heap }

/-- `for(age_i = 10, weight_j = 35; age_i < 40; age_i += 5, weight_j += 5)` -/
def mainPersons : List Person := (List.range 6).map fun (i : Nat) => { age := 10 + 5 * i, weight := 35 + 5 * i }

section Removal

variable {β : Type} {head : Address} {rest : List (Address × List Address)} {loose : List Address}
  {body : Address → Heap β → Option (Heap β)} {keep : Address → Bool} {kept todo nodes : List Address} {n : Address}
  {heap : Heap β} {held : Heap β → Prop} {rounds : Nat}

/-- The body keeps the entry it stands on, or unlinks and frees it. -/
def Removes (head : Address) (rest : List (Address × List Address)) (loose : List Address)
    (body : Address → Heap β → Option (Heap β)) (keep : Address → Bool) (held : Heap β → Prop) : Prop :=
  ∀ heap kept node todo, Represents heap { lists := (head, kept ++ node :: todo) :: rest, loose := loose } → held heap →
    ∃ after, body node heap = some after ∧ held after ∧
      Represents after { lists := (head, kept ++ ([node].filter keep ++ todo)) :: rest, loose := loose }

theorem exists_next (related : Represents heap { lists := (head, nodes) :: rest, loose := loose }) {node : Address}
    (member : node ∈ head :: nodes) : ∃ following, heap.nextOf node = some following := by
  obtain ⟨following, -, onwards, -⟩ := related.circle.inverse node member
  exact ⟨following, onwards⟩

theorem safe_path (removes : Removes head rest loose body keep held)
    (related : Represents heap { lists := (head, kept ++ todo) :: rest, loose := loose }) (holds : held heap)
    (following : heap.nextOf (todo.headD head) = some n) (enough : todo.length < rounds) :
    ∃ after, whileLoop (safeRound head body) rounds { pos := todo.headD head, n := n, heap := heap } = .returned after ∧
      held after ∧ Represents after { lists := (head, kept ++ todo.filter keep) :: rest, loose := loose } := by
  induction todo generalizing kept heap n rounds with
  | nil =>
      obtain ⟨rounds, rfl⟩ : ∃ fewer, rounds = fewer + 1 := ⟨rounds - 1, by omega⟩
      refine ⟨heap, whileLoop_stop ?_, holds, related⟩
      rw [safeRound, List.headD_nil, if_pos rfl]
      rfl
  | cons node todo ih =>
      obtain ⟨rounds, rfl⟩ : ∃ fewer, rounds = fewer + 1 := ⟨rounds - 1, by omega⟩
      have apart : node ≠ head := fun equal =>
        (List.nodup_cons.mp related.circle.distinct).1 (equal ▸ List.mem_append_right kept List.mem_cons_self)
      have behind : heap.nextOf node = some (todo.headD head) := related.circle.neighbours.1
      cases following.symm.trans behind
      obtain ⟨middle, ran, holdsMiddle, relatedMiddle⟩ := removes heap kept node todo related holds
      rw [← List.append_assoc] at relatedMiddle
      have inside : todo.headD head ∈ head :: (kept ++ [node].filter keep ++ todo) := right_mem
      obtain ⟨next, onwards⟩ := exists_next relatedMiddle inside
      have fewer : todo.length < rounds := Nat.lt_of_succ_lt_succ enough
      obtain ⟨after, looped, holdsAfter, relatedAfter⟩ := ih relatedMiddle holdsMiddle onwards fewer
      have round : safeRound head body { pos := node, n := todo.headD head, heap := heap } =
          .returned (.next { pos := todo.headD head, n := next, heap := middle }) := by
        rw [safeRound, if_neg apart]
        simp only [ran, onwards, Outcome.ofOption_some, Outcome.returned_bind, Outcome.pure_eq]
      refine ⟨after, ?_, holdsAfter, ?_⟩
      · rw [List.headD_cons, whileLoop_next round, looped]
      · rw [List.append_assoc, ← List.filter_append, List.singleton_append] at relatedAfter
        exact relatedAfter

/-- What is kept is what the walk leaves behind, in the same order. -/
theorem listForEachSafe_removes (removes : Removes head rest loose body keep held)
    (related : Represents heap { lists := (head, nodes) :: rest, loose := loose }) (holds : held heap) :
    ∃ after, listForEachSafe head body heap = .returned after ∧ held after ∧
      Represents after { lists := (head, nodes.filter keep) :: rest, loose := loose } := by
  have first : heap.nextOf head = some (nodes.headD head) := related.circle.forward.first
  have inside : nodes.headD head ∈ head :: ([] ++ nodes) := right_mem
  obtain ⟨n, following⟩ := exists_next related inside
  rw [← List.nil_append nodes] at related
  obtain ⟨after, looped, result⟩ := safe_path removes related holds following
    (length_lt_rounds related.circle.distinct fun _ member => related.live member)
  refine ⟨after, ?_, result⟩
  rw [listForEachSafe, first, Outcome.ofOption_some, Outcome.returned_bind, following, Outcome.ofOption_some,
    Outcome.returned_bind]
  exact looped

end Removal

section Persons

variable {head node : Address} {people chosen : List (Address × Person)} {heap after : Persons} {age : Int}
  {kept todo nodes : List Address} {lists : List (Address × List Address)}

theorem listDelInit_heldOf (deleted : listDelInit node heap = some after) : after.heldOf = heap.heldOf := by
  obtain ⟨one, unlinked, initialised⟩ := Option.bind_eq_some_iff.mp deleted
  obtain ⟨prev, -, unlinked⟩ := Option.bind_eq_some_iff.mp unlinked
  obtain ⟨next, -, unlinked⟩ := Option.bind_eq_some_iff.mp unlinked
  obtain ⟨two, first, second⟩ := Option.bind_eq_some_iff.mp unlinked
  obtain ⟨three, third, fourth⟩ := Option.bind_eq_some_iff.mp initialised
  rw [setPrev_heldOf fourth, setNext_heldOf third, setNext_heldOf second, setPrev_heldOf first]

theorem listAdd_heldOf (added : listAdd node head heap = some after) : after.heldOf = heap.heldOf := by
  obtain ⟨next, -, added⟩ := Option.bind_eq_some_iff.mp added
  obtain ⟨one, first, added⟩ := Option.bind_eq_some_iff.mp added
  obtain ⟨two, second, added⟩ := Option.bind_eq_some_iff.mp added
  obtain ⟨three, third, fourth⟩ := Option.bind_eq_some_iff.mp added
  rw [setNext_heldOf fourth, setPrev_heldOf third, setNext_heldOf second, setPrev_heldOf first]

/-- Beside the head only these persons are alive, each at its address. -/
def Holds (head : Address) (people : List (Address × Person)) (heap : Persons) : Prop :=
  ∀ node ∈ heap, node ≠ head → ∃ person ∈ people, person.1 = node ∧ personAt heap node = some person.2

theorem releasePerson_represents
    (related : Represents heap { lists := (head, kept ++ node :: todo) :: lists, loose := [] }) :
    ∃ after, releasePerson node heap = some after ∧
      after.heldOf = Function.update heap.heldOf node none ∧
      Represents after { lists := (head, kept ++ todo) :: lists, loose := [] } := by
  have distinct := (List.nodup_cons.mp related.circle.distinct).2
  have unlinked : Layout.unlink { lists := (head, kept ++ node :: todo) :: lists, loose := [] } node =
      some { lists := (head, kept ++ todo) :: lists, loose := [node] } := by
    simp [Layout.unlink, Layout.focus, Layout.holding, erase_between distinct]
  obtain ⟨one, deleted, represents⟩ := listUnlink_represents related unlinked
  obtain ⟨two, initialised, represents⟩ := initListHead_represents represents
  have own : Represents two { lists := (head, kept ++ todo) :: lists, loose := [node] } :=
    represents.rearrange List.perm_middle fun _ member => List.mem_cons_of_mem _ member
  obtain ⟨after, freed, final⟩ := own.release
  have removed : listDelInit node heap = some two := by
    rw [listDelInit, deleted]
    exact initialised
  obtain ⟨other, same, -, -, held⟩ := free_links (own.live_loose List.mem_cons_self)
  cases freed.symm.trans same
  refine ⟨after, ?_, ?_, final⟩
  · rw [releasePerson, removed]
    exact freed
  · rw [held, listDelInit_heldOf removed]

theorem holds_released (holds : Holds head people heap) (held : after.heldOf = Function.update heap.heldOf node none) :
    Holds head people after := by
  intro other live apart
  rw [mem_iff_heldOf, held] at live
  have differs : other ≠ node := by
    rintro rfl
    rw [Function.update_self] at live
    contradiction
  rw [Function.update_of_ne differs, ← mem_iff_heldOf] at live
  obtain ⟨person, member, place, found⟩ := holds other live apart
  refine ⟨person, member, place, ?_⟩
  rw [personAt, held, Function.update_of_ne differs]
  exact found

theorem releasePerson_removes : Removes head lists [] releasePerson (fun _ => false) (Holds head people) := by
  intro heap kept node todo related holds
  obtain ⟨after, released, held, represents⟩ := releasePerson_represents related
  exact ⟨after, released, holds_released holds held, represents⟩

/-- No person of this age is at the address. -/
def otherAge (people : List (Address × Person)) (age : Int) (node : Address) : Bool :=
  people.all fun person => person.1 ≠ node ∨ person.2.age ≠ age

theorem otherAge_eq (distinct : (people.map Prod.fst).Nodup) {person : Address × Person} (member : person ∈ people) :
    otherAge people age person.1 = decide (person.2.age ≠ age) := by
  rw [otherAge, Bool.eq_iff_iff, List.all_eq_true, decide_eq_true_iff]
  constructor
  · intro all
    simpa using all person member
  · intro differs other inside
    by_cases same : other.1 = person.1
    · have equal : other = person := List.inj_on_of_nodup_map distinct inside member same
      simpa [equal] using differs
    · simp [same]

theorem deletePerson_removes (age : Int) (distinct : (people.map Prod.fst).Nodup) :
    Removes head lists [] (deletePerson age) (otherAge people age) (Holds head people) := by
  intro heap kept node todo related holds
  have inside : node ∈ kept ++ node :: todo := List.mem_append_right kept List.mem_cons_self
  have apart : node ≠ head := ne_of_mem_of_not_mem inside (List.nodup_cons.mp related.circle.distinct).1
  obtain ⟨person, member, rfl, found⟩ := holds node (related.live (List.mem_cons_of_mem head inside)) apart
  have keeps : otherAge people age person.1 = decide (person.2.age ≠ age) := otherAge_eq distinct member
  by_cases same : person.2.age = age
  · obtain ⟨after, released, held, represents⟩ := releasePerson_represents related
    refine ⟨after, ?_, holds_released holds held, ?_⟩
    · rw [deletePerson, found]
      simp only [Option.bind_eq_bind, Option.bind_some, if_pos same, released]
    · rw [List.filter_cons_of_neg (by simp [keeps, same])]
      exact represents
  · refine ⟨heap, ?_, holds, ?_⟩
    · rw [deletePerson, found]
      simp only [Option.bind_eq_bind, Option.bind_some, if_neg same]
    · rw [List.filter_cons_of_pos (by simp [keeps, same])]
      exact related

/-- The persons come into the list in front of the ones before them. -/
theorem addPersons_represents (related : Represents heap { lists := [(head, nodes)], loose := [] })
    (holds : Holds head chosen heap) (distinct : (head :: nodes ++ people.map Prod.fst).Nodup) :
    ∃ after, addPersons head people heap = some after ∧ Holds head (people.reverse ++ chosen) after ∧
      Represents after { lists := [(head, (people.map Prod.fst).reverse ++ nodes)], loose := [] } := by
  induction people generalizing heap nodes chosen with
  | nil => exact ⟨heap, rfl, holds, related⟩
  | cons person people ih =>
      have moved : (head :: nodes ++ person.1 :: people.map Prod.fst).Perm
          (person.1 :: (head :: nodes ++ people.map Prod.fst)) := List.perm_middle
      obtain ⟨absent, others⟩ := List.nodup_cons.mp (moved.nodup_iff.mp distinct)
      have fresh : person.1 ∉ head :: nodes := fun inside => absent (List.mem_append_left _ inside)
      have unused : person.1 ∉ heap := by
        rw [related.alive]
        simpa [Layout.cells, Circular.cells] using fresh
      obtain ⟨one, allocated, represents⟩ : ∃ one, heap.allocate person.1 (some person.2) = some one ∧
          Represents one { lists := [(head, nodes)], loose := [person.1] } :=
        related.create fun inside => unused ((related.alive _).mpr inside)
      obtain ⟨same, created, -, -, held⟩ := allocate_links (some person.2) unused
      cases created.symm.trans allocated
      obtain ⟨two, added, represents⟩ := listAdd_represents represents
      have holdsTwo : Holds head (person :: chosen) two := by
        intro node live apart
        rw [mem_iff_heldOf, listAdd_heldOf added, held] at live
        by_cases new : node = person.1
        · refine ⟨person, List.mem_cons_self, new.symm, ?_⟩
          rw [personAt, listAdd_heldOf added, held, new, Function.update_self]
          rfl
        · rw [Function.update_of_ne new, ← mem_iff_heldOf] at live
          obtain ⟨earlier, member, place, found⟩ := holds node live apart
          refine ⟨earlier, List.mem_cons_of_mem person member, place, ?_⟩
          rw [personAt, listAdd_heldOf added, held, Function.update_of_ne new]
          exact found
      have distinctTwo : (head :: (person.1 :: nodes) ++ people.map Prod.fst).Nodup := by
        refine (List.Perm.nodup_iff ?_).mp (moved.nodup_iff.mp distinct)
        exact List.Perm.swap ..
      obtain ⟨after, done, holdsAfter, final⟩ := ih represents holdsTwo distinctTwo
      refine ⟨after, ?_, ?_, ?_⟩
      · rw [addPersons, allocated]
        simp only [Option.bind_eq_bind, Option.bind_some, added, done]
      · rw [List.reverse_cons, List.append_assoc, List.singleton_append]
        exact holdsAfter
      · rw [List.map_cons, List.reverse_cons, List.append_assoc, List.singleton_append]
        exact final

theorem printPersons_represents (related : Represents heap { lists := (head, nodes) :: lists, loose := [] })
    (same : nodes = chosen.map Prod.fst) (found : ∀ person ∈ chosen, personAt heap person.1 = some person.2) :
    printPersons head heap = .returned (chosen.map Prod.snd) := by
  have printed : ∀ earlier, inTurn (fun pos printed => do
      let person ← .ofOption (personAt heap pos)
      return .next (printed ++ [person])) id (chosen.map Prod.fst) earlier =
        .returned (earlier ++ chosen.map Prod.snd) := by
    clear same related
    induction chosen with
    | nil =>
        intro earlier
        rw [List.map_nil, List.map_nil, List.append_nil]
        rfl
    | cons person chosen ih =>
        intro earlier
        have rest := ih (fun other member => found other (List.mem_cons_of_mem person member)) (earlier ++ [person.2])
        rw [List.map_cons, inTurn, found person List.mem_cons_self]
        rw [List.append_assoc] at rest
        exact rest
  subst same
  rw [printPersons, related.each_next]
  exact printed []

theorem filter_otherAge (distinct : (people.map Prod.fst).Nodup) :
    (people.map Prod.fst).filter (otherAge people age) =
      (people.filter fun person => person.2.age ≠ age).map Prod.fst := by
  rw [List.filter_map]
  refine congrArg _ (List.filter_congr fun person member => ?_)
  exact otherAge_eq distinct member

theorem holds_found (holds : Holds head people heap) (distinct : (head :: people.map Prod.fst).Nodup)
    {person : Address × Person} (member : person ∈ people) (live : person.1 ∈ heap) :
    personAt heap person.1 = some person.2 := by
  obtain ⟨absent, distinct⟩ := List.nodup_cons.mp distinct
  have place : person.1 ∈ people.map Prod.fst := List.mem_map_of_mem member
  obtain ⟨other, inside, same, found⟩ := holds person.1 live (ne_of_mem_of_not_mem place absent)
  have equal : other = person := List.inj_on_of_nodup_map distinct inside member same
  rw [found, equal]

/-- Whoever is put in and whichever age is taken out, the two lists are printed as they should be, nothing
that was freed is touched, and only the head is alive at the end. -/
theorem listTest_prints (head : Address) (people : List (Address × Person)) (age : Int)
    (distinct : (head :: people.map Prod.fst).Nodup) :
    ∃ printed, listTest head people age = .returned printed ∧
      printed.before = (people.map Prod.snd).reverse ∧
      printed.after = (people.map Prod.snd).reverse.filter (fun person => person.age ≠ age) ∧
      ∀ node, node ∈ printed.heap ↔ node = head := by
  have unused : head ∉ (∅ : Persons) := AList.notMem_empty head
  obtain ⟨one, allocated, related⟩ : ∃ one, (∅ : Persons).allocate head none = some one ∧
      Represents one { lists := [], loose := [head] } := represents_empty.create List.not_mem_nil
  obtain ⟨two, initialised, related⟩ := initListHead_represents related
  have alone : Holds head [] two := by
    intro node live apart
    rw [related.alive] at live
    exact absurd (List.mem_singleton.mp live) apart
  obtain ⟨three, added, holds, related⟩ := addPersons_represents related alone distinct
  rw [List.append_nil] at holds related
  rw [← List.map_reverse] at related
  have mirrored : (head :: people.reverse.map Prod.fst).Nodup := by
    rw [List.map_reverse]
    exact ((List.reverse_perm _).cons head).nodup_iff.mpr distinct
  have distinctPeople := (List.nodup_cons.mp mirrored).2
  have liveFirst : ∀ person ∈ people.reverse, person.1 ∈ three := fun person member =>
    related.live (List.mem_cons_of_mem head (List.mem_map_of_mem member))
  have before := printPersons_represents related rfl fun person member =>
    holds_found holds mirrored member (liveFirst person member)
  obtain ⟨four, deleted, holds, related⟩ :=
    listForEachSafe_removes (deletePerson_removes age distinctPeople) related holds
  rw [filter_otherAge distinctPeople] at related
  have liveKept : ∀ person ∈ people.reverse.filter (fun person => person.2.age ≠ age), person.1 ∈ four :=
    fun person member => related.live (List.mem_cons_of_mem head (List.mem_map_of_mem member))
  have after := printPersons_represents related rfl fun person member =>
    holds_found holds mirrored (List.mem_filter.mp member).1 (liveKept person member)
  obtain ⟨five, released, -, related⟩ := listForEachSafe_removes releasePerson_removes related holds
  rw [List.filter_false] at related
  refine ⟨{ before := people.reverse.map Prod.snd,
            after := (people.reverse.filter fun person => person.2.age ≠ age).map Prod.snd, heap := five },
    ?_, List.map_reverse, ?_, fun node => ?_⟩
  · simp only [listTest, allocated, initialised, added, before, deleted, after, released, Outcome.ofOption_some,
      Outcome.returned_bind, Outcome.pure_eq]
  · rw [← List.map_reverse, List.filter_map]
    rfl
  · rw [related.alive]
    exact List.mem_singleton

theorem listTest_prints_main :
    ∃ printed, listTest 0 ([48, 96, 144, 192, 240, 288].zip mainPersons) 20 = .returned printed ∧
      printed.before.map Person.age = [35, 30, 25, 20, 15, 10] ∧
      printed.after.map Person.age = [35, 30, 25, 15, 10] ∧ ∀ node, node ∈ printed.heap ↔ node = 0 := by
  obtain ⟨printed, ran, before, after, alone⟩ :=
    listTest_prints 0 ([48, 96, 144, 192, 240, 288].zip mainPersons) 20 (by decide)
  refine ⟨printed, ran, ?_, ?_, alone⟩
  · rw [before]
    decide
  · rw [after]
    decide

end Persons

end Dwadelib.KernelList
