import Dwadelib.Dram

namespace Dwadelib.Dram

/-! # What the driver gives

Bytes of the memory only, of one page in each call, and never nothing before the end. All calls are answered as
long as no frame is missing.
-/

open Seekable

variable {memory : Memory} {more count pos : Nat} {answer : Answer} {state after : State} {call : Call}

theorem page_lt (inside : pos < memory.dramSize) : pos / PAGE_SIZE < memory.numPhyspages := by
  rw [Memory.dramSize, Nat.mul_comm] at inside
  exact Nat.div_lt_of_lt_mul inside

/-- Where the memory is small enough for an `int` to number its pages, a read before its end maps the right one. -/
theorem myRead_inside (more count : Nat) (few : memory.numPhyspages ≤ 2 ^ 31) (inside : pos < memory.dramSize) :
    myRead memory more count pos = if memory.present (pos / PAGE_SIZE) then
      some (if more ≠ 0 then
        { result := -EFAULT,
          data := (bytesAt memory.bytes pos (min count (PAGE_SIZE - pos % PAGE_SIZE))).take
            (min count (PAGE_SIZE - pos % PAGE_SIZE) - more)
          pos := pos }
      else
        { result := (min count (PAGE_SIZE - pos % PAGE_SIZE) : Nat)
          data := bytesAt memory.bytes pos (min count (PAGE_SIZE - pos % PAGE_SIZE))
          pos := pos + min count (PAGE_SIZE - pos % PAGE_SIZE) })
      else none := by
  have page := page_lt inside
  have number : CInt.convert (pos / PAGE_SIZE : Nat) = (pos / PAGE_SIZE : Nat) := CInt.convert_natCast (by omega)
  have whole : pos / PAGE_SIZE * PAGE_SIZE + pos % PAGE_SIZE = pos := Nat.div_add_mod' pos PAGE_SIZE
  have indent : pos % PAGE_SIZE < PAGE_SIZE := Nat.mod_lt _ (by decide)
  have given : (if PAGE_SIZE < pos % PAGE_SIZE + count then PAGE_SIZE - pos % PAGE_SIZE else count) =
      min count (PAGE_SIZE - pos % PAGE_SIZE) := by
    split <;> omega
  rw [myRead, if_neg (Nat.not_le.mpr inside)]
  simp only [number, Int.toNat_natCast, whole, given, Int.natCast_nonneg, true_and]
  split
  · split <;> rfl
  · rfl

theorem myRead_end (more count : Nat) (ended : memory.dramSize ≤ pos) :
    myRead memory more count pos = some { result := 0, data := [], pos := pos } := by
  rw [myRead, if_pos ended]

/-- What is left of a page is before the end of the memory. -/
theorem page_within (inside : pos < memory.dramSize) : pos + (PAGE_SIZE - pos % PAGE_SIZE) ≤ memory.dramSize := by
  have page := page_lt inside
  have indent : pos % PAGE_SIZE < PAGE_SIZE := Nat.mod_lt _ (by decide)
  have whole : pos / PAGE_SIZE * PAGE_SIZE + pos % PAGE_SIZE = pos := Nat.div_add_mod' pos PAGE_SIZE
  have next : (pos / PAGE_SIZE + 1) * PAGE_SIZE ≤ memory.numPhyspages * PAGE_SIZE := Nat.mul_le_mul_right _ page
  rw [Nat.add_mul, Nat.one_mul] at next
  rw [Memory.dramSize]
  omega

/-- The device is a file with the memory as its content. -/
theorem device_serves (few : memory.numPhyspages ≤ 2 ^ 31) (noHole : memory.NoHole) :
    Serves (device memory) id memory.bytes memory.dramSize := by
  constructor
  · intro pos target within
    refine ⟨target, ?_, rfl⟩
    have inside : ¬ ((target : Int) < 0 ∨ (memory.dramSize : Int) < target) := by omega
    simp only [device, myLlseek, if_pos, if_neg inside, Int.toNat_natCast]
  · intro pos count ended
    have last : memory.dramSize ≤ pos := Nat.le_of_eq ended.symm
    refine ⟨pos, ?_, ended⟩
    simp only [device, myRead_end _ _ last]
  · intro pos count before positive
    have inside : pos < memory.dramSize := before
    have indent : pos % PAGE_SIZE < PAGE_SIZE := Nat.mod_lt _ (by decide)
    have page := page_within inside
    have capped : 0 < MAX_RW_COUNT := by decide
    have fits : pos + min (min count MAX_RW_COUNT) (PAGE_SIZE - pos % PAGE_SIZE) ≤ memory.dramSize := by omega
    refine ⟨pos + min (min count MAX_RW_COUNT) (PAGE_SIZE - pos % PAGE_SIZE),
      min (min count MAX_RW_COUNT) (PAGE_SIZE - pos % PAGE_SIZE), by omega, by omega, fits, ?_, rfl⟩
    simp only [device]
    rw [myRead_inside _ _ few inside, if_pos (noHole _ (page_lt inside)), if_neg (not_not.mpr rfl)]
    rfl

/-- Whatever is asked for and wherever copying fails. -/
structure Sound (memory : Memory) (state : State) : Prop where
  within : state.pos ≤ memory.dramSize
  seen : ∀ place byte, (place, byte) ∈ state.seen → place < memory.dramSize ∧ byte = memory.bytes place

theorem myLlseek_within (within : pos ≤ memory.dramSize) (offset whence : Int) :
    (myLlseek memory offset whence pos).2 ≤ memory.dramSize := by
  simp only [myLlseek]
  generalize (if whence = 0 then offset else if whence = 1 then (pos : Int) + offset
    else if whence = 2 then (memory.dramSize : Int) + offset else -1) = newpos
  by_cases outside : newpos < 0 ∨ (memory.dramSize : Int) < newpos
  · rw [if_pos outside]
    exact within
  · rw [if_neg outside]
    show newpos.toNat ≤ memory.dramSize
    omega

theorem seen_bytes {first taken given : Nat} (inside : first + given ≤ memory.dramSize) {place : Nat} {byte : UInt8}
    (member : (place, byte) ∈ (List.range ((bytesAt memory.bytes first given).take taken).length).map fun k =>
      (first + k, ((((bytesAt memory.bytes first given).take taken)[k]?).getD 0))) :
    place < memory.dramSize ∧ byte = memory.bytes place := by
  obtain ⟨k, before, same⟩ := List.mem_map.mp member
  obtain ⟨rfl, rfl⟩ := Prod.mk.inj same
  have less : k < taken ∧ k < given := by
    have found := List.mem_range.mp before
    rw [List.length_take, length_bytesAt] at found
    omega
  refine ⟨by omega, ?_⟩
  rw [List.getElem?_take, if_pos less.1, bytesAt, List.getElem?_map, List.getElem?_range less.2]
  rfl

theorem read_sound (given taken : Nat) (sound : Sound memory state)
    (read : step memory state (.read count more) = some after)
    (answered : myRead memory more (min count MAX_RW_COUNT) state.pos = some answer)
    (within : answer.pos ≤ memory.dramSize) (data : answer.data = (bytesAt memory.bytes state.pos given).take taken)
    (inside : state.pos + given ≤ memory.dramSize) : Sound memory after := by
  rw [step, answered, Option.map_some, Option.some_inj] at read
  subst read
  refine ⟨within, fun place byte member => ?_⟩
  rcases List.mem_append.mp member with earlier | found
  · exact sound.seen place byte earlier
  · rw [data] at found
    exact seen_bytes inside found

theorem step_sound (few : memory.numPhyspages ≤ 2 ^ 31) (sound : Sound memory state)
    (taken : step memory state call = some after) : Sound memory after := by
  cases call with
  | llseek offset whence =>
      cases taken
      exact ⟨myLlseek_within sound.within offset whence, sound.seen⟩
  | read count more =>
      by_cases inside : state.pos < memory.dramSize
      · have page := page_within inside
        have answered := myRead_inside more (min count MAX_RW_COUNT) few inside
        by_cases present : memory.present (state.pos / PAGE_SIZE)
        · rw [if_pos present] at answered
          by_cases fault : more ≠ 0
          · rw [if_pos fault] at answered
            exact read_sound _ _ sound taken answered sound.within rfl (by omega)
          · rw [if_neg fault] at answered
            refine read_sound _ _ sound taken answered ?_ (List.take_of_length_le (Nat.le_refl _)).symm (by omega)
            show state.pos + _ ≤ _
            omega
        · rw [if_neg present] at answered
          rw [step, answered] at taken
          contradiction
      · have ended : memory.dramSize ≤ state.pos := Nat.le_of_not_lt inside
        have answered := myRead_end more (min count MAX_RW_COUNT) ended
        exact read_sound 0 0 sound taken answered sound.within rfl sound.within

/-- No call is undefined where no frame is missing. -/
theorem step_defined (few : memory.numPhyspages ≤ 2 ^ 31) (noHole : memory.NoHole) (state : State) (call : Call) :
    ∃ after, step memory state call = some after := by
  cases call with
  | llseek offset whence => exact ⟨_, rfl⟩
  | read count more =>
      by_cases inside : state.pos < memory.dramSize
      · rw [step, myRead_inside more _ few inside, if_pos (noHole _ (page_lt inside))]
        exact ⟨_, rfl⟩
      · rw [step, myRead_end more _ (Nat.le_of_not_lt inside)]
        exact ⟨_, rfl⟩

def fresh : State := { pos := 0, seen := [] }

/-- A program that reads from a missing frame. -/
theorem hole_undefined {frame : Nat} (few : memory.numPhyspages ≤ 2 ^ 31) (below : frame < memory.numPhyspages)
    (missing : ¬ memory.present frame = true) :
    Run.run (step memory) fresh [.llseek (frame * PAGE_SIZE : Nat) 0, .read 1 0] = none := by
  have positive : 0 < PAGE_SIZE := by decide
  have inside : frame * PAGE_SIZE < memory.dramSize := Nat.mul_lt_mul_of_pos_right below positive
  have sought : step memory fresh (.llseek (frame * PAGE_SIZE : Nat) 0) =
      some { fresh with pos := frame * PAGE_SIZE } := by
    have allowed : ¬ (((frame * PAGE_SIZE : Nat) : Int) < 0 ∨ (memory.dramSize : Int) < (frame * PAGE_SIZE : Nat)) := by
      omega
    simp only [step, myLlseek, if_pos, if_neg allowed, Int.toNat_natCast]
  rw [Run.run_cons, sought, Option.bind_some, Run.run_cons, step, myRead_inside 0 _ few inside,
    Nat.mul_div_cancel frame positive, if_neg missing]
  rfl

/-- All calls of all programs are answered exactly if no frame is missing below the number of pages; a page that
is not there is mapped otherwise. As far as calls are answered, the position stays within the memory and every
byte that was given is the one of the memory at that place. -/
theorem calls_sound (few : memory.numPhyspages ≤ 2 ^ 31) :
    ((∀ calls, ∃ final, Run.run (step memory) fresh calls = some final) ↔ memory.NoHole) ∧
      ∀ calls final, Run.run (step memory) fresh calls = some final → final.pos ≤ memory.dramSize ∧
        ∀ place byte, (place, byte) ∈ final.seen → place < memory.dramSize ∧ byte = memory.bytes place := by
  refine ⟨⟨fun answered frame below => ?_, fun noHole calls => ?_⟩, fun calls final ran => ?_⟩
  · by_contra missing
    obtain ⟨final, ran⟩ := answered [.llseek (frame * PAGE_SIZE : Nat) 0, .read 1 0]
    cases (hole_undefined few below missing).symm.trans ran
  · have defined : ∀ state call, True → ∃ next, step memory state call = some next ∧ True := by
      intro state call _
      obtain ⟨next, taken⟩ := step_defined few noHole state call
      exact ⟨next, taken, trivial⟩
    obtain ⟨final, ran, -⟩ := Run.run_exists defined trivial calls
    exact ⟨final, ran⟩
  · have start : Sound memory fresh := ⟨Nat.zero_le _, fun place byte member => absurd member List.not_mem_nil⟩
    have sound := Run.invariant_of_run (fun _ _ _ => step_sound few) start ran
    exact ⟨sound.within, sound.seen⟩

/-- Two pages, of which the first one is missing. -/
def halfMemory : Memory := { numPhyspages := 2, present := fun frame => frame = 1, bytes := fun place => .ofNat place }

theorem calls_sound_half :
    ((∀ calls, ∃ final, Run.run (step halfMemory) fresh calls = some final) ↔ halfMemory.NoHole) ∧
      ∀ calls final, Run.run (step halfMemory) fresh calls = some final → final.pos ≤ halfMemory.dramSize ∧
        ∀ place byte, (place, byte) ∈ final.seen → place < halfMemory.dramSize ∧ byte = halfMemory.bytes place :=
  calls_sound (by decide)

end Dwadelib.Dram
