import Dwadelib.Cells
import Dwadelib.MqTest
import Dwadelib.Tally

namespace Dwadelib.MqTest

/-! # When the counters agree -/

variable {db after memory : List Db} {data : Data} {index room : Nat} {changes : List Data}
  {area : Option (List Db)}

/-- What a message does to the counter under its index. -/
def tally : Tally Data Nat := { key := Data.index, delta := fun data => if data.op = 1 then 1 else -1 }

/-- No counter leaves `int`. -/
def InInt (changes : List Data) : Prop := tally.Within (-2 ^ 31) (2 ^ 31) changes

theorem inInt_of_length (short : changes.length < 2 ^ 31) : InInt changes := by
  refine Tally.within_of_length (fun data => ?_) (by omega) (by omega)
  by_cases up : data.op = 1
  · simp [tally, up]
  · simp [tally, up]

theorem counted_eq (data : Data) (count : Int) : counted data.op count = CInt.checked (count + tally.delta data) := by
  by_cases up : data.op = 1
  · simp only [counted, tally, if_pos up]
  · simp only [counted, tally, if_neg up, Int.sub_eq_add_neg]

theorem dbCount_eq (db : List Db) (index : Nat) : dbCount db index = db[index * dataCount]?.map Db.count := by
  rw [dbCount, CInt.read_natCast]

theorem dbInitAt_eq (inside : index * dataCount < db.length) :
    dbInitAt index db = some (db.set (index * dataCount) { index := index, count := 0 }) :=
  CInt.write_natCast inside

theorem apart (other : index ≠ room) : index * dataCount ≠ room * dataCount := by
  unfold dataCount
  omega

/-- Each record stands at the beginning of an array of them; nothing else is written. -/
theorem dbInit_records (large : 90 < memory.length) :
    ∃ db, dbInit memory = some db ∧ db.length = memory.length ∧
      (∀ index, index < dataCount → db[index * dataCount]? = some { index := index, count := 0 }) ∧
        ∀ place, (∀ index, index < dataCount → place ≠ index * dataCount) → db[place]? = memory[place]? := by
  have sets : ∀ i db, 0 ≤ i → i < 0 + dataCount →
      (db.length = memory.length ∧
        (∀ index, index < i → db[index * dataCount]? = some { index := index, count := 0 }) ∧
          ∀ place, (∀ index, index < i → place ≠ index * dataCount) → db[place]? = memory[place]?) →
      ∃ next, dbInitAt i db = some next ∧ next.length = memory.length ∧
        (∀ index, index < i + 1 → next[index * dataCount]? = some { index := index, count := 0 }) ∧
          ∀ place, (∀ index, index < i + 1 → place ≠ index * dataCount) → next[place]? = memory[place]? := by
    intro i db _ upper kept
    obtain ⟨size, zero, others⟩ := kept
    have inside : i * dataCount < db.length := by
      unfold dataCount at upper ⊢
      omega
    refine ⟨_, dbInitAt_eq inside, by rw [List.length_set, size], fun index below => ?_, fun place outside => ?_⟩
    · rcases Nat.lt_or_eq_of_le (Nat.le_of_lt_succ below) with earlier | rfl
      · rw [List.getElem?_set_ne (apart (Nat.ne_of_gt earlier))]
        exact zero index earlier
      · rw [List.getElem?_set_self inside]
    · rw [List.getElem?_set_ne (outside i (Nat.lt_succ_self i)).symm]
      exact others place fun index earlier => outside index (Nat.lt_succ_of_lt earlier)
  obtain ⟨db, filled, size, zero, others⟩ := forRange_total
    (fun i (db : List Db) => db.length = memory.length ∧
      (∀ index, index < i → db[index * dataCount]? = some { index := index, count := 0 }) ∧
        ∀ place, (∀ index, index < i → place ≠ index * dataCount) → db[place]? = memory[place]?) sets
    ⟨rfl, fun index none => by contradiction, fun _ _ => rfl⟩
  rw [Nat.zero_add] at zero others
  exact ⟨db, filled, size, zero, others⟩

theorem dbInit_outside (small : memory.length ≤ 90) : dbInit memory = none := by
  rw [← Option.not_isSome_iff_eq_none, Option.isSome_iff_exists]
  intro given
  obtain ⟨db, filled⟩ := given
  have sets : ∀ i db next, 0 ≤ i → i < 0 + dataCount →
      (db.length = memory.length ∧ ∀ index, index < i → index * dataCount < memory.length) →
      dbInitAt i db = some next →
      next.length = memory.length ∧ ∀ index, index < i + 1 → index * dataCount < memory.length := by
    intro i db next _ _ given written
    obtain ⟨size, inside⟩ := given
    simp only [dbInitAt, CInt.write, Option.ite_none_right_eq_some, Option.some.injEq] at written
    obtain ⟨⟨-, here⟩, rfl⟩ := written
    refine ⟨by rw [List.length_set, size], fun index below => ?_⟩
    rcases Nat.lt_or_eq_of_le (Nat.le_of_lt_succ below) with earlier | rfl
    · exact inside index earlier
    · omega
  have all := forRange_invariant
    (fun i (db : List Db) => db.length = memory.length ∧ ∀ index, index < i → index * dataCount < memory.length) sets
    ⟨rfl, fun index none => by contradiction⟩ filled
  have last := all.2 9 (by decide)
  unfold dataCount at last
  omega

theorem dbSetCount_eq {record : Db} (read : db[index * dataCount]? = some record) (count : Int) :
    dbSetCount db index count = some (db.set (index * dataCount) { record with count := count }) := by
  obtain ⟨inside, -⟩ := List.getElem?_eq_some_iff.mp read
  rw [dbSetCount, CInt.read_natCast, read, Option.bind_eq_bind, Option.bind_some, CInt.write_natCast inside]

theorem dbSetCount_counts (inside : index * dataCount < db.length) (count : Int) :
    ∃ after, dbSetCount db index count = some after ∧ after.length = db.length ∧ dbCount after index = some count ∧
      ∀ other, other ≠ index → dbCount after other = dbCount db other := by
  refine ⟨_, dbSetCount_eq (List.getElem?_eq_getElem inside) count, List.length_set, ?_, ?_⟩
  · rw [dbCount_eq, List.getElem?_set_self inside]
    rfl
  · intro other different
    rw [dbCount_eq, dbCount_eq, List.getElem?_set_ne (apart different.symm)]

/-- The counters after some changes; nothing is known of them once a change was undefined. -/
inductive Counts (room : Nat) (changes : List Data) : Option (List Db) → Prop where
  | counted {db : List Db} (large : 90 < room) (size : db.length = room) (within : InInt changes)
      (counts : ∀ index, index < dataCount → dbCount db index = some (tally.net changes index)) :
      Counts room changes (some db)
  | undefined (reason : ¬ (90 < room ∧ InInt changes)) : Counts room changes none

theorem counts_start (memory : List Db) : Counts memory.length [] (dbInit memory) := by
  by_cases large : 90 < memory.length
  · obtain ⟨db, filled, size, zero, -⟩ := dbInit_records large
    rw [filled]
    refine .counted large size (Tally.within_nil (by decide) (by decide)) fun index below => ?_
    rw [dbCount_eq, zero index below]
    rfl
  · rw [dbInit_outside (Nat.le_of_not_lt large)]
    exact .undefined fun both => large both.1

theorem Counts.update (counts : Counts room changes area) (bounded : data.index < dataCount) :
    Counts room (changes ++ [data]) (area.bind (dbUpdate · data)) := by
  cases counts with
  | undefined reason => exact .undefined fun both => reason ⟨both.1, both.2.of_append⟩
  | @counted db large size within counts =>
      have inside : data.index * dataCount < db.length := by
        unfold dataCount at bounded ⊢
        omega
      have read := counts data.index bounded
      have added := counted_eq data (tally.net changes data.index)
      by_cases fits : -2 ^ 31 ≤ tally.net changes data.index + tally.delta data ∧
          tally.net changes data.index + tally.delta data < 2 ^ 31
      · rw [CInt.checked_eq fits.1 fits.2] at added
        obtain ⟨after, written, length, own, others⟩ :=
          dbSetCount_counts inside (tally.net changes data.index + tally.delta data)
        have updated : dbUpdate db data = some after := by
          rw [dbUpdate, read, Option.bind_eq_bind, Option.bind_some, added, Option.bind_some, written]
        rw [Option.bind_some, updated]
        refine .counted large (length.trans size) (Tally.within_concat.mpr ⟨within, fits⟩) fun index below => ?_
        rw [Tally.net_append]
        by_cases same : index = data.index
        · subst same
          rw [own]
          exact congrArg (fun change => some (tally.net changes data.index + change)) Tally.net_own.symm
        · have other : tally.key data ≠ index := fun equal => same equal.symm
          rw [others index same, counts index below, Tally.net_other other, Int.add_zero]
      · have overflow : dbUpdate db data = none := by
          rw [dbUpdate, read, Option.bind_eq_bind, Option.bind_some, added, CInt.checked, if_neg fits]
          rfl
        rw [Option.bind_some, overflow]
        exact .undefined fun both => fits (Tally.within_concat.mp both.2).2

namespace Sun

/-- The message that a child has taken and not applied yet. -/
def held : Sun → Option Data
  | receiving => none
  | received data => some data
  | locked data => some data
  | loaded data _ => some data
  | unlocking => none

/-- Between `pthread_mutex_lock` and `pthread_mutex_unlock`. -/
def Inside : Sun → Prop
  | receiving => False
  | received _ => False
  | locked _ => True
  | loaded _ _ => True
  | unlocking => True

end Sun

def heldBy (suns : List Sun) : List Data := suns.filterMap Sun.held

/-- A child that moves on changes what is held by its own message only. -/
theorem net_heldBy_set {suns : List Sun} {sun : Nat} {before : Sun} (found : suns[sun]? = some before) (moved : Sun)
    (counter : Nat) :
    tally.net (heldBy (suns.set sun moved)) counter + tally.net before.held.toList counter =
      tally.net (heldBy suns) counter + tally.net moved.held.toList counter := by
  induction suns generalizing sun with
  | nil => simp at found
  | cons first suns ih =>
      have front : ∀ (head : Sun) (rest : List Sun), tally.net (heldBy (head :: rest)) counter =
          tally.net head.held.toList counter + tally.net (heldBy rest) counter := by
        intro head rest
        cases held : head.held with
        | none => simp [heldBy, held]
        | some data => rw [heldBy, List.filterMap_cons_some held, Tally.net_cons, Option.toList_some, heldBy]
      cases sun with
      | zero =>
          obtain rfl : first = before := by simpa using found
          rw [List.set_cons_zero, front, front]
          omega
      | succ sun =>
          have later := ih (by simpa using found)
          rw [List.set_cons_succ, front, front]
          omega

theorem mem_heldBy {suns : List Sun} : data ∈ heldBy suns ↔ ∃ sun ∈ suns, sun.held = some data := by
  rw [heldBy, List.mem_filterMap]

/-- No message is on its way. -/
def Quiescent (state : State) : Prop := state.queue = [] ∧ ∀ sun ∈ state.suns, sun.held = none

instance : DecidablePred Quiescent := fun state =>
  have := List.decidableBAll (fun sun : Sun => sun.held = none) state.suns
  inferInstanceAs (Decidable (state.queue = [] ∧ ∀ sun ∈ state.suns, sun.held = none))

def Agree (state : State) : Prop :=
  ∃ localDb dbMap, state.localDb = some localDb ∧ state.dbMap = some dbMap ∧
    ∀ index, index < dataCount → dbCount localDb index = dbCount dbMap index

/-- What the updates that failed, and one that is not sent yet, come to. -/
def Cancelled (watched : Run.Watched State History) : Prop :=
  ∀ index, index < dataCount → tally.net (watched.seen.failed ++ watched.state.unsent.toList) index = 0

/-- Both sets of counters hold what was done to them; each update is applied or failed or on its
way; and one child at a time is inside, where it sees the counters as they are. -/
structure Exact (localRoom mapRoom : Nat) (watched : Run.Watched State History) : Prop where
  localCounts : Counts localRoom watched.seen.updated watched.state.localDb
  mapCounts : Counts mapRoom watched.seen.applied watched.state.dbMap
  ledger : ∀ counter, tally.net watched.seen.updated counter =
    tally.net watched.seen.applied counter + tally.net watched.seen.failed counter +
      tally.net watched.state.unsent.toList counter + tally.net watched.state.queue counter +
        tally.net (heldBy watched.state.suns) counter
  bounded : ∀ data, data ∈ watched.state.unsent.toList ++ watched.state.queue ++ heldBy watched.state.suns →
    data.index < dataCount
  mutex : ∀ sun place, watched.state.suns[sun]? = some place → place.Inside → watched.state.dptr = some sun
  loaded : ∀ (sun : Nat) (data : Data) (count : Option Int), watched.state.suns[sun]? = some (.loaded data count) →
    count = watched.state.dbMap.bind (dbCount · data.index)

theorem getElem?_set_cases {suns : List Sun} {sun other : Nat} {moved place : Sun}
    (found : (suns.set sun moved)[other]? = some place) :
    (other = sun ∧ place = moved) ∨ (other ≠ sun ∧ suns[other]? = some place) := by
  by_cases same : other = sun
  · subst same
    have inside : other < suns.length := by
      have bound := (List.getElem?_eq_some_iff.mp found).1
      rwa [List.length_set] at bound
    rw [List.getElem?_set_self inside] at found
    exact Or.inl ⟨rfl, (Option.some.inj found).symm⟩
  · rw [List.getElem?_set_ne (Ne.symm same)] at found
    exact Or.inr ⟨same, found⟩

theorem mem_heldBy_set {suns : List Sun} {sun : Nat} {moved : Sun} (member : data ∈ heldBy (suns.set sun moved)) :
    data ∈ heldBy suns ∨ moved.held = some data := by
  obtain ⟨place, inside, held⟩ := mem_heldBy.mp member
  rcases List.mem_or_eq_of_mem_set inside with before | rfl
  · exact Or.inl (mem_heldBy.mpr ⟨place, before, held⟩)
  · exact Or.inr held

theorem mem_heldBy_of_getElem? {suns : List Sun} {sun : Nat} {place : Sun} (found : suns[sun]? = some place)
    (held : place.held = some data) : data ∈ heldBy suns :=
  mem_heldBy.mpr ⟨place, List.mem_of_getElem? found, held⟩

theorem exact_begin (localDb dbMap : List Db) : Exact localDb.length dbMap.length (begin localDb dbMap) := by
  have receiving : ∀ (sun : Nat) (place : Sun), (List.replicate sunCount Sun.receiving)[sun]? = some place →
      place = .receiving :=
    fun sun place found => List.eq_of_mem_replicate (List.mem_of_getElem? found)
  constructor
  · exact counts_start localDb
  · exact counts_start dbMap
  · intro counter
    rfl
  · intro data member
    exact absurd member (List.not_mem_nil)
  · intro sun place found inside
    rw [receiving sun place found] at inside
    exact inside.elim
  · intro sun data count found
    cases receiving sun _ found

section Step

variable {localRoom mapRoom : Nat} {state next : State} {history : History} {event : Event} {report : Report}

/-- A child that moves on outside of the mutex, or into it. -/
theorem Exact.moved (exact : Exact localRoom mapRoom ⟨state, history⟩) {sun : Nat} {before moved : Sun}
    {queue : List Data} {dptr : Option Nat} (found : state.suns[sun]? = some before)
    (balance : ∀ counter, tally.net queue counter + tally.net moved.held.toList counter =
      tally.net state.queue counter + tally.net before.held.toList counter)
    (known : ∀ data, data ∈ queue ∨ moved.held = some data → data ∈ state.queue ∨ before.held = some data)
    (mutex : ∀ other place, (state.suns.set sun moved)[other]? = some place → place.Inside → dptr = some other)
    (loaded : ∀ data count, moved = .loaded data count → count = state.dbMap.bind (dbCount · data.index)) :
    Exact localRoom mapRoom ⟨{ state with queue := queue, dptr := dptr, suns := state.suns.set sun moved }, history⟩ := by
  constructor
  · exact exact.localCounts
  · exact exact.mapCounts
  · intro counter
    have ledger := exact.ledger counter
    have replaced := net_heldBy_set found moved counter
    have same := balance counter
    simp only at ledger ⊢
    omega
  · intro data member
    have bounded := exact.bounded data
    simp only [List.mem_append] at member bounded
    rcases member with (unsent | queued) | held
    · exact bounded (Or.inl (Or.inl unsent))
    · rcases known data (Or.inl queued) with inQueue | here
      · exact bounded (Or.inl (Or.inr inQueue))
      · exact bounded (Or.inr (mem_heldBy_of_getElem? found here))
    · rcases mem_heldBy_set held with earlier | own
      · exact bounded (Or.inr earlier)
      · rcases known data (Or.inr own) with inQueue | here
        · exact bounded (Or.inl (Or.inr inQueue))
        · exact bounded (Or.inr (mem_heldBy_of_getElem? found here))
  · exact mutex
  · intro other data count place
    rcases getElem?_set_cases place with ⟨rfl, same⟩ | ⟨-, earlier⟩
    · exact loaded data count same.symm
    · exact exact.loaded other data count earlier

theorem Exact.updated (exact : Exact localRoom mapRoom ⟨state, history⟩) (stepped : step state (.update data) = some (next, report)) :
    Exact localRoom mapRoom ⟨next, note history state (.update data) report⟩ := by
  simp only [step, Option.ite_none_right_eq_some, Option.some.injEq, Prod.mk.injEq] at stepped
  obtain ⟨⟨idle, below⟩, rfl, rfl⟩ := stepped
  constructor
  · exact exact.localCounts.update below
  · exact exact.mapCounts
  · intro counter
    have ledger := exact.ledger counter
    simp only [note, Tally.net_append, Option.toList_some, idle, Option.toList_none, Tally.net_nil] at ledger ⊢
    omega
  · intro other member
    simp only [Option.toList_some, List.mem_append, List.mem_singleton] at member
    rcases member with (rfl | queued) | held
    · exact below
    · exact exact.bounded other (List.mem_append_left _ (List.mem_append_right _ queued))
    · exact exact.bounded other (List.mem_append_right _ held)
  · exact exact.mutex
  · exact exact.loaded

/-- An update that was made and not sent yet goes into the queue or is lost. -/
theorem Exact.settled {queue failed : List Data} (exact : Exact localRoom mapRoom ⟨state, history⟩)
    (waiting : state.unsent = some data)
    (balance : ∀ counter, tally.net queue counter + tally.net failed counter =
      tally.net state.queue counter + tally.net history.failed counter + tally.net [data] counter)
    (known : ∀ other ∈ queue, other ∈ state.queue ∨ other = data) :
    Exact localRoom mapRoom
      ⟨{ state with unsent := none, queue := queue }, { history with failed := failed }⟩ := by
  have ledger := exact.ledger
  have bounded := exact.bounded
  simp only [waiting, Option.toList_some] at ledger bounded
  refine ⟨exact.localCounts, exact.mapCounts, fun counter => ?_, fun other member => ?_, exact.mutex, exact.loaded⟩
  · have before := ledger counter
    have same := balance counter
    simp only [Option.toList_none, Tally.net_nil]
    omega
  · apply bounded other
    simp only [Option.toList_none, List.nil_append, List.mem_append, List.mem_singleton] at member ⊢
    rcases member with queued | held
    · rcases known other queued with before | here
      · exact Or.inl (Or.inr before)
      · exact Or.inl (Or.inl here)
    · exact Or.inr held

theorem Exact.sent {sent : Bool} (exact : Exact localRoom mapRoom ⟨state, history⟩)
    (stepped : step state (.send sent) = some (next, report)) :
    Exact localRoom mapRoom ⟨next, note history state (.send sent) report⟩ := by
  cases waiting : state.unsent with
  | none => simp [step, waiting] at stepped
  | some data =>
      cases sent with
      | true =>
          simp only [step, waiting, if_true, Option.some.injEq, Prod.mk.injEq] at stepped
          obtain ⟨rfl, rfl⟩ := stepped
          refine exact.settled waiting (fun counter => ?_) fun other member => ?_
          · rw [Tally.net_append]
            omega
          · rwa [List.mem_append, List.mem_singleton] at member
      | false =>
          simp only [step, waiting, Bool.false_eq_true, if_false, Option.some.injEq, Prod.mk.injEq] at stepped
          obtain ⟨rfl, rfl⟩ := stepped
          refine exact.settled waiting (fun counter => ?_) fun other member => Or.inl member
          rw [Tally.net_append]
          omega

theorem Exact.received {sun : Nat} (exact : Exact localRoom mapRoom ⟨state, history⟩)
    (stepped : step state (.receive sun) = some (next, report)) :
    Exact localRoom mapRoom ⟨next, note history state (.receive sun) report⟩ := by
  simp only [step] at stepped
  split at stepped
  · rename_i data queue found queued
    cases stepped
    refine exact.moved found (fun counter => ?_) (fun other known => ?_) (fun other place moved inside => ?_) ?_
    · rw [queued, Tally.net_cons]
      simp only [Sun.held, Option.toList_some, Option.toList_none, Tally.net_nil]
      omega
    · rw [queued]
      simp only [Sun.held, Option.some.injEq, List.mem_cons] at known ⊢
      tauto
    · rcases getElem?_set_cases moved with ⟨-, rfl⟩ | ⟨-, earlier⟩
      · exact inside.elim
      · exact exact.mutex other place earlier inside
    · intro other count impossible
      cases impossible
  · cases stepped

theorem Exact.lockTaken {sun : Nat} (exact : Exact localRoom mapRoom ⟨state, history⟩)
    (stepped : step state (.lock sun) = some (next, report)) :
    Exact localRoom mapRoom ⟨next, note history state (.lock sun) report⟩ := by
  simp only [step] at stepped
  split at stepped
  · rename_i data found free
    cases stepped
    refine exact.moved found (fun counter => rfl) (fun other known => known) (fun other place moved inside => ?_) ?_
    · rcases getElem?_set_cases moved with ⟨rfl, -⟩ | ⟨-, earlier⟩
      · rfl
      · have owner := exact.mutex other place earlier inside
        rw [free] at owner
        cases owner
    · intro other count impossible
      cases impossible
  · cases stepped

theorem Exact.loadedCount {sun : Nat} (exact : Exact localRoom mapRoom ⟨state, history⟩)
    (stepped : step state (.load sun) = some (next, report)) :
    Exact localRoom mapRoom ⟨next, note history state (.load sun) report⟩ := by
  simp only [step] at stepped
  split at stepped
  · rename_i data found
    cases stepped
    refine exact.moved found (fun counter => rfl) (fun other known => known) (fun other place moved inside => ?_) ?_
    · rcases getElem?_set_cases moved with ⟨rfl, -⟩ | ⟨-, earlier⟩
      · exact exact.mutex other _ found trivial
      · exact exact.mutex other place earlier inside
    · intro other count same
      cases same
      rfl
  · cases stepped

theorem Exact.unlocked {sun : Nat} (exact : Exact localRoom mapRoom ⟨state, history⟩)
    (stepped : step state (.unlock sun) = some (next, report)) :
    Exact localRoom mapRoom ⟨next, note history state (.unlock sun) report⟩ := by
  simp only [step] at stepped
  split at stepped
  · rename_i found
    cases stepped
    refine exact.moved found (fun counter => rfl) (fun other known => known) (fun other place moved inside => ?_) ?_
    · rcases getElem?_set_cases moved with ⟨-, rfl⟩ | ⟨different, earlier⟩
      · exact inside.elim
      · have owner := exact.mutex other place earlier inside
        rw [exact.mutex sun _ found trivial] at owner
        exact absurd (Option.some.inj owner).symm different
    · intro other count impossible
      cases impossible
  · cases stepped

/-- A store ends an update: nobody else was inside since the load. -/
theorem Exact.stored {sun : Nat} (exact : Exact localRoom mapRoom ⟨state, history⟩)
    (stepped : step state (.store sun) = some (next, report)) :
    Exact localRoom mapRoom ⟨next, note history state (.store sun) report⟩ := by
  simp only [step] at stepped
  split at stepped
  · rename_i data count found
    cases stepped
    have below : data.index < dataCount :=
      exact.bounded data (List.mem_append_right _ (mem_heldBy_of_getElem? found rfl))
    have whole : (do
        let db ← state.dbMap
        let count ← count
        let count ← counted data.op count
        dbSetCount db data.index count) = state.dbMap.bind (dbUpdate · data) := by
      rw [exact.loaded sun data count found]
      cases state.dbMap <;> rfl
    constructor
    · exact exact.localCounts
    · show Counts mapRoom (history.applied ++ [data]) _
      simp only [whole]
      exact exact.mapCounts.update below
    · intro counter
      have ledger := exact.ledger counter
      have replaced := net_heldBy_set found .unlocking counter
      simp only [note, Tally.net_append, Sun.held, Option.toList_some, Option.toList_none, Tally.net_nil] at ledger replaced ⊢
      omega
    · intro other member
      refine exact.bounded other ?_
      simp only [List.mem_append] at member ⊢
      rcases member with before | held
      · exact Or.inl before
      · rcases mem_heldBy_set held with earlier | own
        · exact Or.inr earlier
        · cases own
    · intro other place moved inside
      rcases getElem?_set_cases moved with ⟨rfl, -⟩ | ⟨-, earlier⟩
      · exact exact.mutex other _ found trivial
      · exact exact.mutex other place earlier inside
    · intro other wanted kept moved
      rcases getElem?_set_cases moved with ⟨-, impossible⟩ | ⟨different, earlier⟩
      · cases impossible
      · have owner := exact.mutex other _ earlier trivial
        rw [exact.mutex sun _ found trivial] at owner
        exact absurd (Option.some.inj owner).symm different
  · cases stepped

theorem Exact.step (exact : Exact localRoom mapRoom ⟨state, history⟩)
    (stepped : MqTest.step state event = some (next, report)) :
    Exact localRoom mapRoom ⟨next, note history state event report⟩ := by
  cases event with
  | update data => exact exact.updated stepped
  | send sent => exact exact.sent stepped
  | receive sun => exact exact.received stepped
  | noMessage sun =>
      simp only [MqTest.step, Option.ite_none_right_eq_some, Option.some.injEq, Prod.mk.injEq] at stepped
      obtain ⟨-, rfl, rfl⟩ := stepped
      exact exact
  | lock sun => exact exact.lockTaken stepped
  | load sun => exact exact.loadedCount stepped
  | store sun => exact exact.stored stepped
  | unlock sun => exact exact.unlocked stepped

end Step

theorem exact_run {localDb dbMap : List Db} {events : List Event} {watched : Run.Watched State History}
    (reached : Run.run (Run.watch step note) (begin localDb dbMap) events = some watched) :
    Exact localDb.length dbMap.length watched := by
  refine Run.invariant_of_run (fun watched event next exact taken => ?_) (exact_begin localDb dbMap) reached
  obtain ⟨state, report, stepped, rfl⟩ := Run.watch_eq_some.mp taken
  exact exact.step stepped

theorem heldBy_quiescent {suns : List Sun} (quiet : ∀ sun ∈ suns, sun.held = none) : heldBy suns = [] :=
  List.filterMap_eq_nil_iff.mpr quiet

theorem Exact.agree_iff {localRoom mapRoom : Nat} {watched : Run.Watched State History}
    (exact : Exact localRoom mapRoom watched) (quiescent : Quiescent watched.state) :
    Agree watched.state ↔
      90 < localRoom ∧ 90 < mapRoom ∧ InInt watched.seen.updated ∧ InInt watched.seen.applied ∧ Cancelled watched := by
  have balance : ∀ counter, tally.net watched.seen.updated counter = tally.net watched.seen.applied counter +
      tally.net (watched.seen.failed ++ watched.state.unsent.toList) counter := by
    intro counter
    have ledger := exact.ledger counter
    rw [quiescent.1, heldBy_quiescent quiescent.2, Tally.net_nil] at ledger
    rw [Tally.net_append]
    omega
  have localCounts := exact.localCounts
  have mapCounts := exact.mapCounts
  constructor
  · intro given
    obtain ⟨localDb, dbMap, localHeld, mapHeld, same⟩ := given
    rw [localHeld] at localCounts
    rw [mapHeld] at mapCounts
    cases localCounts with
    | counted localLarge localSize localWithin localRight =>
        cases mapCounts with
        | counted mapLarge mapSize mapWithin mapRight =>
            refine ⟨localLarge, mapLarge, localWithin, mapWithin, fun index below => ?_⟩
            have counts := same index below
            rw [localRight index below, mapRight index below, Option.some.injEq] at counts
            have ledger := balance index
            omega
  · intro given
    obtain ⟨localLarge, mapLarge, localWithin, mapWithin, cancelled⟩ := given
    cases localHeld : watched.state.localDb with
    | none =>
        rw [localHeld] at localCounts
        cases localCounts with
        | undefined reason => exact absurd ⟨localLarge, localWithin⟩ reason
    | some localDb =>
        cases mapHeld : watched.state.dbMap with
        | none =>
            rw [mapHeld] at mapCounts
            cases mapCounts with
            | undefined reason => exact absurd ⟨mapLarge, mapWithin⟩ reason
        | some dbMap =>
            rw [localHeld] at localCounts
            rw [mapHeld] at mapCounts
            cases localCounts with
            | counted localLarge localSize localWithin localRight =>
                cases mapCounts with
                | counted mapLarge mapSize mapWithin mapRight =>
                    refine ⟨localDb, dbMap, localHeld, mapHeld, fun index below => ?_⟩
                    have ledger := balance index
                    rw [localRight index below, mapRight index below, ledger, cancelled index below, Int.add_zero]

/-- When no message is on its way, the counters agree exactly when there is memory for all of them,
none has left `int` and the updates that were not sent cancel out. -/
theorem agree_iff_cancelled {localDb dbMap : List Db} {events : List Event} {watched : Run.Watched State History}
    (reached : Run.run (Run.watch step note) (begin localDb dbMap) events = some watched)
    (quiescent : Quiescent watched.state) :
    Agree watched.state ↔
      90 < localDb.length ∧ 90 < dbMap.length ∧ InInt watched.seen.updated ∧ InInt watched.seen.applied ∧
        Cancelled watched :=
  (exact_run reached).agree_iff quiescent

/-- One update with memory for 91 records. -/
theorem delivered_update_agrees : ∃ watched,
    Run.run (Run.watch step note) (begin (List.replicate 91 ⟨7, 7⟩) (List.replicate 91 ⟨7, 7⟩))
      [.update ⟨3, 1⟩, .send true, .receive 2, .lock 2, .load 2, .store 2, .unlock 2] = some watched ∧
      Quiescent watched.state ∧ Agree watched.state := by
  have made : ∃ watched, watched ∈
      Run.run (Run.watch step note) (begin (List.replicate 91 ⟨7, 7⟩) (List.replicate 91 ⟨7, 7⟩))
        [.update ⟨3, 1⟩, .send true, .receive 2, .lock 2, .load 2, .store 2, .unlock 2] ∧
      Quiescent watched.state ∧ watched.seen.updated.length < 2 ^ 31 ∧ watched.seen.applied.length < 2 ^ 31 ∧
        ∀ index, index < dataCount → tally.net (watched.seen.failed ++ watched.state.unsent.toList) index = 0 := by
    decide +kernel
  obtain ⟨watched, reached, quiescent, fewUpdated, fewApplied, cancelled⟩ := made
  exact ⟨watched, reached, quiescent, (agree_iff_cancelled reached quiescent).mpr
    ⟨by decide, by decide, inInt_of_length fewUpdated, inInt_of_length fewApplied, cancelled⟩⟩

/-- One update that is not sent; and the records that are declared. -/
theorem failed_send_disagrees :
    (∃ watched,
      Run.run (Run.watch step note) (begin (List.replicate 91 ⟨7, 7⟩) (List.replicate 91 ⟨7, 7⟩))
        [.update ⟨3, 1⟩, .send false] = some watched ∧ Quiescent watched.state ∧ ¬ Agree watched.state) ∧
      Quiescent (start (List.replicate 10 ⟨7, 7⟩) (List.replicate 10 ⟨7, 7⟩)) ∧
        ¬ Agree (start (List.replicate 10 ⟨7, 7⟩) (List.replicate 10 ⟨7, 7⟩)) := by
  have made : ∃ watched, watched ∈
      Run.run (Run.watch step note) (begin (List.replicate 91 ⟨7, 7⟩) (List.replicate 91 ⟨7, 7⟩))
        [.update ⟨3, 1⟩, .send false] ∧
      Quiescent watched.state ∧ watched.state.localDb.bind (dbCount · 3) = some 1 ∧
        watched.state.dbMap.bind (dbCount · 3) = some 0 := by
    decide +kernel
  obtain ⟨watched, reached, quiescent, here, there⟩ := made
  refine ⟨⟨watched, reached, quiescent, ?_⟩, by decide +kernel, ?_⟩
  · intro given
    obtain ⟨localDb, dbMap, localHeld, mapHeld, same⟩ := given
    rw [localHeld, Option.bind_some, same 3 (by decide)] at here
    rw [mapHeld, Option.bind_some, here] at there
    exact absurd there (by decide)
  · intro given
    obtain ⟨localDb, dbMap, localHeld, -, -⟩ := given
    have outside : (start (List.replicate 10 ⟨7, 7⟩) (List.replicate 10 ⟨7, 7⟩)).localDb = none := by decide +kernel
    rw [localHeld] at outside
    cases outside

end Dwadelib.MqTest
