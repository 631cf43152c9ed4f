import Mathlib.Data.List.Basic

namespace Dwadelib

/-! # Lists looked up by a key

The entries with one key, in order. Taking the first entry with a key out of the list takes
the head of that sublist and leaves the sublists of all other keys alone.
-/

namespace Keyed

variable {α κ : Type} [DecidableEq κ] {key other : α → Option κ} {wanted : κ} {entry : α}
  {list more before after : List α}

def ofKey (key : α → Option κ) (wanted : κ) (list : List α) : List α :=
  list.filter fun entry => key entry = some wanted

@[simp] theorem ofKey_append :
    ofKey key wanted (list ++ more) = ofKey key wanted list ++ ofKey key wanted more := by
  simp [ofKey]

theorem ofKey_cons_same (same : key entry = some wanted) :
    ofKey key wanted (entry :: list) = entry :: ofKey key wanted list := by
  simp [ofKey, same]

theorem ofKey_cons_other (different : key entry ≠ some wanted) :
    ofKey key wanted (entry :: list) = ofKey key wanted list := by
  simp [ofKey, different]

theorem mem_ofKey : entry ∈ ofKey key wanted list ↔ entry ∈ list ∧ key entry = some wanted := by
  simp [ofKey]

theorem ofKey_congr (same : ∀ entry ∈ list, key entry = other entry) :
    ofKey key wanted list = ofKey other wanted list := by
  apply List.filter_congr
  intro entry member
  rw [same entry member]

theorem ofKey_eq_nil (absent : ∀ entry ∈ list, key entry ≠ some wanted) : ofKey key wanted list = [] := by
  rw [List.eq_nil_iff_forall_not_mem]
  intro entry member
  obtain ⟨inside, same⟩ := mem_ofKey.mp member
  exact absent entry inside same

/-- The first entry with a key heads the entries with this key. -/
theorem ofKey_first (absent : ∀ entry ∈ before, key entry ≠ some wanted)
    (same : key entry = some wanted) :
    ofKey key wanted (before ++ entry :: after) = entry :: ofKey key wanted after := by
  rw [ofKey_append, ofKey_eq_nil absent, ofKey_cons_same same, List.nil_append]

section Erase

variable [DecidableEq α]

theorem erase_first (absent : entry ∉ before) :
    (before ++ entry :: after).erase entry = before ++ after := by
  rw [List.erase_append_right _ absent, List.erase_cons_head]

theorem ofKey_erase_other (different : key entry ≠ some wanted) :
    ofKey key wanted (list.erase entry) = ofKey key wanted list := by
  induction list with
  | nil => rfl
  | cons head rest ih =>
      by_cases first : head = entry
      · rw [first, List.erase_cons_head, ofKey_cons_other different]
      · rw [List.erase_cons_tail (by simpa using first)]
        by_cases same : key head = some wanted
        · rw [ofKey_cons_same same, ofKey_cons_same same, ih]
        · rw [ofKey_cons_other same, ofKey_cons_other same, ih]

theorem ofKey_erase_first (absent : ∀ entry ∈ before, key entry ≠ some wanted)
    (same : key entry = some wanted) :
    ofKey key wanted ((before ++ entry :: after).erase entry) = ofKey key wanted after := by
  rw [erase_first fun member => absent entry member same, ofKey_append, ofKey_eq_nil absent,
    List.nil_append]

end Erase

end Keyed

end Dwadelib
