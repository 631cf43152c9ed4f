import Mathlib.Data.List.Basic

namespace Dwadelib

/-! # Arrays as lists

A range of an array is read or written as a whole, and only inside of the array.
-/

namespace Cells

variable {α : Type} {cells after values : List α} {start count index : Nat}

def load (cells : List α) (start count : Nat) : Option (List α) :=
  if start + count ≤ cells.length then some ((cells.drop start).take count) else none

def store (cells : List α) (start : Nat) (values : List α) : Option (List α) :=
  if start + values.length ≤ cells.length then
    some (cells.take start ++ values ++ cells.drop (start + values.length))
  else none

theorem load_exists (inside : start + count ≤ cells.length) :
    load cells start count = some ((cells.drop start).take count) := if_pos inside

theorem store_exists (inside : start + values.length ≤ cells.length) :
    store cells start values = some (cells.take start ++ values ++ cells.drop (start + values.length)) :=
  if_pos inside

theorem store_outside (outside : cells.length < start + values.length) : store cells start values = none :=
  if_neg (by omega)

theorem store_eq_some : store cells start values = some after ↔
    start + values.length ≤ cells.length ∧
      after = cells.take start ++ values ++ cells.drop (start + values.length) := by
  unfold store
  split
  · rename_i inside
    simp only [Option.some.injEq, inside, true_and]
    exact eq_comm
  · rename_i outside
    simp only [reduceCtorEq, outside, false_and]

theorem length_of_store (stored : store cells start values = some after) :
    after.length = cells.length := by
  obtain ⟨inside, rfl⟩ := store_eq_some.mp stored
  simp only [List.length_append, List.length_take, List.length_drop]
  omega

/-- Two adjacent ranges are written as one. -/
theorem store_store {first second : List α} :
    ((store cells start first).bind fun written => store written (start + first.length) second) =
      store cells start (first ++ second) := by
  have length : (first ++ second).length = first.length + second.length := List.length_append
  by_cases fits : start + first.length ≤ cells.length
  · have front : (cells.take start ++ first).length = start + first.length := by
      rw [List.length_append, List.length_take]
      omega
    have room : (cells.take start ++ first ++ cells.drop (start + first.length)).length = cells.length := by
      rw [List.length_append, front, List.length_drop]
      omega
    rw [store_exists fits, Option.bind_some]
    by_cases inside : start + first.length + second.length ≤ cells.length
    · rw [store_exists (by omega), store_exists (by omega), List.take_append_of_le_length (by omega),
        List.take_of_length_le (by omega), ← front, List.drop_length_add_append, front, List.drop_drop,
        length, List.append_assoc, List.append_assoc, List.append_assoc, List.append_assoc, Nat.add_assoc]
    · rw [store_outside (by omega), store_outside (by omega)]
  · have outside : store cells start first = none := store_outside (by omega)
    rw [outside, Option.bind_none, store_outside (by omega)]

/-- A cell of the range holds its new value, any other cell what it held before. -/
theorem getElem?_store (stored : store cells start values = some after) (index : Nat) :
    after[index]? =
      if start ≤ index ∧ index < start + values.length then values[index - start]? else cells[index]? := by
  obtain ⟨inside, rfl⟩ := store_eq_some.mp stored
  have front : (cells.take start).length = start := by
    rw [List.length_take]
    omega
  rw [List.append_assoc]
  by_cases before : index < start
  · rw [if_neg (by omega), List.getElem?_append_left (by rw [front]; exact before),
      List.getElem?_take_of_lt before]
  · rw [List.getElem?_append_right (by rw [front]; omega), front]
    by_cases within : index < start + values.length
    · rw [if_pos ⟨by omega, within⟩, List.getElem?_append_left (by omega)]
    · rw [if_neg (by omega), List.getElem?_append_right (by omega), List.getElem?_drop]
      congr 1
      omega

section One

variable {cell : α} {change : α → α} {wanted : α → Bool} {before rest : List α}

theorem getElem?_middle : (before ++ cell :: rest)[before.length]? = some cell := by
  rw [List.getElem?_append_right (Nat.le_refl _), Nat.sub_self, List.getElem?_cons_zero]

theorem modify_middle :
    (before ++ cell :: rest).modify before.length change = before ++ change cell :: rest := by
  induction before with
  | nil => rfl
  | cons head tail ih =>
      rw [List.cons_append, List.length_cons, List.modify_succ_cons, ih, List.cons_append]

/-- The first wanted cell, with the cells on both sides of it. -/
theorem findIdx_split (found : ∃ cell ∈ cells, wanted cell = true) :
    ∃ before cell rest, cells = before ++ cell :: rest ∧ wanted cell = true ∧
      (∀ other ∈ before, wanted other = false) ∧ cells.findIdx wanted = before.length := by
  induction cells with
  | nil =>
      obtain ⟨cell, member, -⟩ := found
      contradiction
  | cons head tail ih =>
      by_cases here : wanted head = true
      · refine ⟨[], head, tail, rfl, here, by simp, ?_⟩
        rw [List.findIdx_cons, here]
        rfl
      · have later : ∃ cell ∈ tail, wanted cell = true := by
          obtain ⟨cell, member, wants⟩ := found
          rcases List.mem_cons.mp member with rfl | inside
          · contradiction
          · exact ⟨cell, inside, wants⟩
        obtain ⟨before, cell, rest, rfl, wants, unwanted, index⟩ := ih later
        have not : wanted head = false := by simpa using here
        refine ⟨head :: before, cell, rest, rfl, wants, ?_, ?_⟩
        · intro other member
          rcases List.mem_cons.mp member with rfl | inside
          · exact not
          · exact unwanted other inside
        · rw [List.findIdx_cons, not, index]
          rfl

end One

/-- Reading the first cells one by one. -/
theorem mapM_getElem? (within : count ≤ cells.length) :
    (List.range count).mapM (fun index => cells[index]?) = some (cells.take count) := by
  induction count with
  | zero => rfl
  | succ count ih =>
      rw [List.range_succ, List.mapM_append, ih (by omega), List.take_add_one]
      simp only [List.mapM_cons, List.mapM_nil, List.getElem?_eq_getElem (show count < cells.length by omega)]
      rfl

theorem filterMap_getElem? (cells : List α) (count : Nat) :
    (List.range count).filterMap (fun index => cells[index]?) = cells.take count := by
  induction count with
  | zero => rfl
  | succ count ih =>
      rw [List.range_succ, List.filterMap_append, ih, List.take_add_one]
      cases read : cells[count]? with
      | none => simp only [List.filterMap_cons, List.filterMap_nil, read, Option.toList]
      | some cell => simp only [List.filterMap_cons, List.filterMap_nil, read, Option.toList]

end Cells

end Dwadelib
