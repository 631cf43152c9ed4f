import Dwadelib.MqTest.Agreement

namespace Dwadelib.MqTest

/-! # Where the records are

A row is as far from the next one as the step of the pointer. The rows of one array are next to each
other, but the pointer steps over whole arrays.
-/

variable {memory db after : List Db} {changes before : List Data} {data : Data} {stride : Nat}

/-- The memory after `db_init` and some updates. -/
def updated (memory : List Db) (changes : List Data) : Option (List Db) :=
  (dbInit memory).bind fun db => changes.foldlM dbUpdate db

/-- Each row has its index and its count; the rest of the memory is what it was. -/
structure Rows (stride : Nat) (memory : List Db) (changes : List Data) (db : List Db) : Prop where
  length : db.length = memory.length
  row : ∀ index, index < dataCount → db[index * stride]? = some { index := index, count := tally.net changes index }
  others : ∀ place, (∀ index, index < dataCount → place ≠ index * stride) → db[place]? = memory[place]?

/-- After each of some updates the rows are as they should be, and no other row was changed by it. -/
structure Addressed (stride : Nat) (memory : List Db) (changes : List Data) : Prop where
  rows : ∀ before, before <+: changes → ∃ db, updated memory before = some db ∧ Rows stride memory before db
  frame : ∀ before data db after, before ++ [data] <+: changes → updated memory before = some db →
    dbUpdate db data = some after → ∀ place, place ≠ data.index * stride → after[place]? = db[place]?

theorem updated_append : updated memory (before ++ [data]) = (updated memory before).bind (dbUpdate · data) := by
  rw [updated, updated, Option.bind_assoc]
  congr 1
  funext db
  rw [List.foldlM_append]
  simp only [List.foldlM_cons, List.foldlM_nil, Option.bind_eq_bind, Option.pure_def, Option.bind_fun_some]

theorem dbUpdate_eq {record : Db} (read : db[data.index * dataCount]? = some record)
    (lower : -2 ^ 31 ≤ record.count + tally.delta data) (upper : record.count + tally.delta data < 2 ^ 31) :
    dbUpdate db data =
      some (db.set (data.index * dataCount) { record with count := record.count + tally.delta data }) := by
  have count : dbCount db data.index = some record.count := by rw [dbCount_eq, read, Option.map_some]
  rw [dbUpdate, count, Option.bind_eq_bind, Option.bind_some, counted_eq, CInt.checked_eq lower upper,
    Option.bind_some, dbSetCount_eq read]

/-- An update changes one record. -/
theorem dbUpdate_frame (updated : dbUpdate db data = some after) {place : Nat} (other : place ≠ data.index * dataCount) :
    after[place]? = db[place]? := by
  obtain ⟨count, -, counted⟩ := Option.bind_eq_some_iff.mp updated
  obtain ⟨total, -, set⟩ := Option.bind_eq_some_iff.mp counted
  obtain ⟨record, read, -⟩ := Option.bind_eq_some_iff.mp set
  rw [CInt.read_natCast] at read
  rw [dbSetCount_eq read] at set
  cases set
  exact List.getElem?_set_ne other.symm

theorem Rows.update (rows : Rows dataCount memory changes db) (bounded : data.index < dataCount)
    (within : InInt (changes ++ [data])) :
    ∃ after, dbUpdate db data = some after ∧ Rows dataCount memory (changes ++ [data]) after := by
  obtain ⟨-, lower, upper⟩ := Tally.within_concat.mp within
  have read := rows.row data.index bounded
  obtain ⟨inside, -⟩ := List.getElem?_eq_some_iff.mp read
  have updated := dbUpdate_eq read lower upper
  refine ⟨_, updated, ?_⟩
  constructor
  · rw [List.length_set, rows.length]
  · intro index below
    rw [Tally.net_append]
    by_cases same : index = data.index
    · have own : tally.net [data] data.index = tally.delta data := Tally.net_own
      rw [same, List.getElem?_set_self inside, own]
    · have other : tally.key data ≠ index := fun equal => same equal.symm
      rw [List.getElem?_set_ne (apart (Ne.symm same)), rows.row index below, Tally.net_other other, Int.add_zero]
  · intro place outside
    rw [dbUpdate_frame updated (outside data.index bounded)]
    exact rows.others place outside

theorem updated_rows (large : 90 < memory.length) (bounded : ∀ data ∈ changes, data.index < dataCount)
    (within : InInt changes) : ∃ db, updated memory changes = some db ∧ Rows dataCount memory changes db := by
  induction changes using List.reverseRecOn with
  | nil =>
      obtain ⟨db, filled, size, zero, others⟩ := dbInit_records large
      exact ⟨db, by rw [updated, filled]; rfl, size, zero, others⟩
  | append_singleton changes data ih =>
      obtain ⟨earlier, last⟩ := List.forall_mem_append.mp bounded
      obtain ⟨db, reached, rows⟩ := ih earlier within.of_append
      obtain ⟨after, taken, more⟩ := rows.update (last data List.mem_cons_self) within
      exact ⟨after, by rw [updated_append, reached, Option.bind_some, taken], more⟩

/-- With memory behind the array, each row is at the beginning of an array of rows. -/
theorem addressed_arrays (large : 90 < memory.length) (bounded : ∀ data ∈ changes, data.index < dataCount)
    (within : InInt changes) : Addressed dataCount memory changes := by
  constructor
  · intro before starts
    obtain ⟨later, rfl⟩ := starts
    exact updated_rows large (List.forall_mem_append.mp bounded).1 within.of_append
  · intro before data db after _ _ updated place other
    exact dbUpdate_frame updated other

/-- In an array of `DATA_COUNT` rows the counters are never set up. -/
theorem never_addressed (records : memory.length = dataCount) (changes : List Data) : ¬ Addressed 1 memory changes := by
  intro addressed
  obtain ⟨db, reached, -⟩ := addressed.rows [] List.nil_prefix
  have outside : dbInit memory = none := dbInit_outside (by rw [records]; decide)
  rw [updated, outside] at reached
  contradiction

theorem never_addressed_zeros :
    ¬ Addressed 1 (List.replicate 10 { index := 0, count := 0 }) [{ index := 3, op := 1 }] :=
  never_addressed (List.length_replicate ..) _

/-- The second row is written ten rows behind the first one. -/
theorem second_row_outside :
    dbInitAt 0 (List.replicate 10 { index := 7, count := 7 }) =
        some ({ index := 0, count := 0 } :: List.replicate 9 { index := 7, count := 7 }) ∧
      dbInitAt 1 ({ index := 0, count := 0 } :: List.replicate 9 { index := 7, count := 7 }) = none ∧
        ¬ Addressed 1 (List.replicate 10 { index := 7, count := 7 }) [] := by
  refine ⟨rfl, rfl, fun addressed => ?_⟩
  obtain ⟨db, reached, -⟩ := addressed.rows [] List.nil_prefix
  have nothing : updated (List.replicate 10 { index := 7, count := 7 }) [] = none := by decide
  rw [nothing] at reached
  contradiction

end Dwadelib.MqTest
