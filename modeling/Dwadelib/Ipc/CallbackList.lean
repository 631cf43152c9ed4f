import Dwadelib.Ipc.Param

namespace Dwadelib.Ipc

/-! # Callback lists and their search loop

Both sides search a list with `list_for_every` and leave the loop by `break` at the first
node with the id. Nodes are named by the order of their allocation.
-/

/-- The value of a `callback_node` variable. -/
inductive NodePointer where
  | null
  | wild
  | node (id : Nat)
deriving DecidableEq, Repr

/-- The search loop: the variable after it, and whether it was left by `break`. `cmdIdOf`
gives the ids of the nodes that are not freed; a freed node is not to be visited. -/
def searchList (cmdIdOf : Nat → Option UInt32) (cmdId : UInt32) :
    List Nat → NodePointer → Option (NodePointer × Bool)
  | [], callbackNode => some (callbackNode, false)
  | id :: rest, _ => (cmdIdOf id).bind fun found =>
      if found = cmdId then some (.node id, true) else searchList cmdIdOf cmdId rest (.node id)

section SearchList

variable {cmdIdOf : Nat → Option UInt32} {cmdId : UInt32} {list : List Nat}
  {callbackNode result : NodePointer}

/-- The first node of the list with this id. -/
def firstWith (cmdIdOf : Nat → Option UInt32) (cmdId : UInt32) (list : List Nat) : Option Nat :=
  list.find? fun id => cmdIdOf id == some cmdId

theorem firstWith_eq_some_iff {id : Nat} :
    firstWith cmdIdOf cmdId list = some id ↔ ∃ before after, list = before ++ id :: after ∧
      cmdIdOf id = some cmdId ∧ ∀ other ∈ before, cmdIdOf other ≠ some cmdId := by
  rw [firstWith, List.find?_eq_some_iff_append]
  constructor
  · intro found
    obtain ⟨same, before, after, split, misses⟩ := found
    refine ⟨before, after, split, by simpa using same, ?_⟩
    intro other earlier
    simpa using misses other earlier
  · intro found
    obtain ⟨before, after, split, same, misses⟩ := found
    refine ⟨by simpa using same, before, after, split, ?_⟩
    intro other earlier
    simpa using misses other earlier

theorem firstWith_eq_none_iff :
    firstWith cmdIdOf cmdId list = none ↔ ∀ id ∈ list, cmdIdOf id ≠ some cmdId := by
  simp [firstWith]

theorem mem_of_firstWith {id : Nat} (found : firstWith cmdIdOf cmdId list = some id) :
    id ∈ list ∧ cmdIdOf id = some cmdId := by
  obtain ⟨before, after, split, same, _⟩ := firstWith_eq_some_iff.mp found
  exact ⟨by rw [split]; simp, same⟩

/-- On a hit the variable points to the first node with the id. -/
theorem searchList_found {id : Nat} (live : ∀ other ∈ list, (cmdIdOf other).isSome)
    (found : firstWith cmdIdOf cmdId list = some id) (callbackNode : NodePointer) :
    searchList cmdIdOf cmdId list callbackNode = some (.node id, true) := by
  induction list generalizing callbackNode with
  | nil => contradiction
  | cons head rest ih =>
      obtain ⟨headId, known⟩ := Option.isSome_iff_exists.mp (live head List.mem_cons_self)
      simp only [searchList, known, Option.bind_some]
      by_cases same : headId = cmdId
      · have first : firstWith cmdIdOf cmdId (head :: rest) = some head := by
          simp [firstWith, known, same]
        cases first.symm.trans found
        rw [if_pos same]
      · have later : firstWith cmdIdOf cmdId rest = some id := by
          simpa [firstWith, known, same] using found
        rw [if_neg same]
        exact ih (fun other member => live other (List.mem_cons_of_mem head member)) later _

/-- After a miss the variable points to the last node of the list, whatever its id; over an
empty list it keeps the value it had. -/
theorem searchList_missed (live : ∀ other ∈ list, (cmdIdOf other).isSome)
    (missed : firstWith cmdIdOf cmdId list = none) (callbackNode : NodePointer) :
    searchList cmdIdOf cmdId list callbackNode =
      some (list.getLast?.elim callbackNode .node, false) := by
  induction list generalizing callbackNode with
  | nil => rfl
  | cons head rest ih =>
      obtain ⟨headId, known⟩ := Option.isSome_iff_exists.mp (live head List.mem_cons_self)
      have misses := firstWith_eq_none_iff.mp missed
      have different : headId ≠ cmdId := by
        intro same
        exact misses head List.mem_cons_self (by rw [known, same])
      have later : firstWith cmdIdOf cmdId rest = none :=
        firstWith_eq_none_iff.mpr fun id member => misses id (List.mem_cons_of_mem head member)
      simp only [searchList, known, Option.bind_some, if_neg different]
      rw [ih (fun other member => live other (List.mem_cons_of_mem head member)) later]
      cases rest with
      | nil => rfl
      | cons second others =>
          rw [List.getLast?_cons_cons]
          cases last : (second :: others).getLast? with
          | none => simp at last
          | some id => rfl

/-- The loop gets to a node with the id over live nodes with other ids. -/
def Reaches (cmdIdOf : Nat → Option UInt32) (cmdId : UInt32) (list : List Nat) (id : Nat) : Prop :=
  ∃ before after, list = before ++ id :: after ∧ cmdIdOf id = some cmdId ∧
    ∀ other ∈ before, ∃ found, cmdIdOf other = some found ∧ found ≠ cmdId

theorem Reaches.firstWith {id : Nat} (reaches : Reaches cmdIdOf cmdId list id) :
    firstWith cmdIdOf cmdId list = some id := by
  obtain ⟨before, after, split, same, others⟩ := reaches
  refine firstWith_eq_some_iff.mpr ⟨before, after, split, same, ?_⟩
  intro other earlier
  obtain ⟨found, known, different⟩ := others other earlier
  rw [known]
  exact fun equal => different (Option.some.inj equal)

theorem searchList_reaches {id : Nat} (reaches : Reaches cmdIdOf cmdId list id)
    (callbackNode : NodePointer) :
    searchList cmdIdOf cmdId list callbackNode = some (.node id, true) := by
  obtain ⟨before, after, rfl, same, others⟩ := reaches
  induction before generalizing callbackNode with
  | nil => simp [searchList, same]
  | cons head rest ih =>
      obtain ⟨found, known, different⟩ := others head List.mem_cons_self
      simp only [List.cons_append, searchList, known, Option.bind_some, if_neg different]
      exact ih _ fun other member => others other (List.mem_cons_of_mem head member)

/-- What a search that visits no freed node can have done, whatever is linked. -/
theorem searchList_cases {hit : Bool}
    (searched : searchList cmdIdOf cmdId list callbackNode = some (result, hit)) :
    (∃ id, Reaches cmdIdOf cmdId list id ∧ result = .node id ∧ hit = true) ∨
    ((∀ id ∈ list, (cmdIdOf id).isSome) ∧ firstWith cmdIdOf cmdId list = none ∧
      result = list.getLast?.elim callbackNode .node ∧ hit = false) := by
  induction list generalizing callbackNode with
  | nil =>
      cases searched
      exact .inr ⟨fun _ member => by contradiction, rfl, rfl, rfl⟩
  | cons head rest ih =>
      obtain ⟨found, known, searched⟩ := Option.bind_eq_some_iff.mp searched
      by_cases same : found = cmdId
      · rw [if_pos same] at searched
        cases searched
        exact .inl ⟨head, ⟨[], rest, rfl, by rw [known, same], fun _ member => by contradiction⟩,
          rfl, rfl⟩
      · rw [if_neg same] at searched
        rcases ih searched with reached | missed
        · obtain ⟨id, ⟨before, after, split, here, others⟩, pointed, flag⟩ := reached
          refine .inl ⟨id, ⟨head :: before, after, by rw [split]; rfl, here, ?_⟩, pointed, flag⟩
          intro other member
          rcases List.mem_cons.mp member with first | later
          · exact ⟨found, by rw [first, known], same⟩
          · exact others other later
        · obtain ⟨live, none_, _, flag⟩ := missed
          have liveAll : ∀ id ∈ head :: rest, (cmdIdOf id).isSome := by
            intro id member
            rcases List.mem_cons.mp member with first | later
            · rw [first, known]
              rfl
            · exact live id later
          have noneAll : firstWith cmdIdOf cmdId (head :: rest) = none := by
            rw [firstWith_eq_none_iff] at none_ ⊢
            intro id member
            rcases List.mem_cons.mp member with first | later
            · rw [first, known]
              exact fun equal => same (Option.some.inj equal)
            · exact none_ id later
          have whole := searchList_missed liveAll noneAll callbackNode
          simp only [searchList, known, Option.bind_some, if_neg same, searched, Option.some.injEq,
            Prod.mk.injEq] at whole
          exact .inr ⟨liveAll, noneAll, whole.1, flag⟩

end SearchList

/-- `list_add_tail` and `list_delete` write to the neighbours of the node, which must not have been freed either. -/
def listAddTail (cmdIdOf : Nat → Option UInt32) (list : List Nat) (id : Nat) : Option (List Nat) :=
  if list.getLast?.all fun last => (cmdIdOf last).isSome then some (list ++ [id]) else none

def listDelete (cmdIdOf : Nat → Option UInt32) (list : List Nat) (id : Nat) : Option (List Nat) :=
  let before := list.takeWhile (· != id)
  let after := (list.dropWhile (· != id)).tail
  if before.getLast?.all (fun last => (cmdIdOf last).isSome) &&
      after.head?.all (fun next => (cmdIdOf next).isSome) then
    some (before ++ after)
  else none

section Linking

variable {cmdIdOf : Nat → Option UInt32} {list : List Nat} {id : Nat}

theorem listAddTail_live (live : ∀ other ∈ list, (cmdIdOf other).isSome) :
    listAddTail cmdIdOf list id = some (list ++ [id]) := by
  have last : list.getLast?.all fun last => (cmdIdOf last).isSome := by
    rw [Option.all_eq_true]
    intro other found
    exact live other (List.mem_of_getLast? found)
  rw [listAddTail, if_pos last]

theorem eq_of_listAddTail {linked : List Nat} (added : listAddTail cmdIdOf list id = some linked) :
    linked = list ++ [id] := by
  unfold listAddTail at added
  split at added
  · cases added
    rfl
  · contradiction

theorem erase_eq_takeWhile_append (list : List Nat) (id : Nat) :
    list.erase id = list.takeWhile (· != id) ++ (list.dropWhile (· != id)).tail := by
  induction list with
  | nil => rfl
  | cons head rest ih =>
      by_cases same : head = id
      · simp [same]
      · simp [same, ih]

theorem listDelete_live (live : ∀ other ∈ list, (cmdIdOf other).isSome) :
    listDelete cmdIdOf list id = some (list.erase id) := by
  have before : (list.takeWhile (· != id)).getLast?.all fun last => (cmdIdOf last).isSome := by
    rw [Option.all_eq_true]
    intro other found
    exact live other ((List.takeWhile_sublist _).subset (List.mem_of_getLast? found))
  have after : ((list.dropWhile (· != id)).tail).head?.all fun next => (cmdIdOf next).isSome := by
    rw [Option.all_eq_true]
    intro other found
    exact live other ((List.dropWhile_sublist _).subset (List.mem_of_mem_tail (List.mem_of_head? found)))
  simp only [listDelete, before, after, Bool.and_self, if_true, erase_eq_takeWhile_append]

theorem eq_of_listDelete {unlinked : List Nat} (deleted : listDelete cmdIdOf list id = some unlinked) :
    unlinked = list.erase id := by
  simp only [listDelete] at deleted
  split at deleted
  · cases deleted
    rw [erase_eq_takeWhile_append]
  · contradiction

end Linking

end Dwadelib.Ipc
