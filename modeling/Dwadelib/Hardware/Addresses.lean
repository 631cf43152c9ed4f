import Dwadelib.Hardware.Identity

namespace Dwadelib.Hardware

/-! # The address of a network card and the number of a board

`get_mac_address` takes what the first way left along to the second one, which adds to it.
-/

variable {known text words : List UInt8} {lines : List (List UInt8)} {kept : UInt8 → Bool}

/-- What the system answers about `eth0`; the fourteen bytes are those of `sa_data` afterwards. -/
structure Card where
  sock : Int
  ioctl : Int
  saData : List UInt8
  size : saData.length = 14
  system : (command : List UInt8) → Finished

/-- The characters `0` to `9` and `a` to `f`. -/
def lowerHex (value : UInt8) : UInt8 := if value < 10 then 0x30 + value else 0x57 + value

/-- `mac` has room for sixteen characters and ends with the first zero byte. -/
def macText (card : Card) : List UInt8 :=
  (card.saData.take 6).flatMap fun value => [lowerHex (value / 16), lowerHex (value % 16)]

def getMacAddressByIoctl (card : Card) : List UInt8 × Bool :=
  if card.sock < 0 then ([], false) else (macText card, card.ioctl ≥ 0)

def lshwCommand : List UInt8 :=
  snprintf 512 (ascii "lshw -c network | grep serial | head -n 1 > .lshw_result.txt")

def getMacAddressBySystem (card : Card) (macAddress : List UInt8) : Traced Look (List UInt8 × Bool) :=
  byProgram parseMacAddress (ascii "serial:") (card.system lshwCommand) macAddress

/-- The new `mac_address` and what is returned. -/
def getMacAddress (card : Card) : Traced Look (List UInt8 × Bool) :=
  otherwise (return getMacAddressByIoctl card) fun macAddress => getMacAddressBySystem card macAddress

def dmidecodeCommand : List UInt8 := snprintf 512 (ascii "dmidecode -t 2 | grep Serial > .dmidecode_result.txt")

def getBoardSerialBySystem (machine : Machine) (boardSerial : List UInt8) : Traced Look (List UInt8 × Bool) :=
  byProgram parseBoardSerial (ascii "Serial Number:") (machine.system dmidecodeCommand) boardSerial

/-- The new `board_serial` and what is returned. -/
def getBoardSerialNumber (machine : Machine) : Traced Look (List UInt8 × Bool) := do
  if machine.uid = 0 then getBoardSerialBySystem machine [] else return ([], false)

/-- Then the first line with a match ends the loop, even if nothing is kept of it. -/
theorem foldLines_known (some : known ≠ []) :
    foldLines (parseStep kept words) lines known = known ++ (lines.findSome? (keptBehind kept words)).getD [] := by
  induction lines with
  | nil => exact (List.append_nil known).symm
  | cons line lines ih =>
      rw [foldLines, List.findSome?_cons]
      cases found : keptBehind kept words line with
      | none =>
          have goes : parseStep kept words line known = .next known := by rw [parseStep, found]
          rw [goes]
          exact ih
      | some more =>
          have stops : parseStep kept words line known = .stop (known ++ more) := by
            rw [parseStep, found]
            exact if_neg fun empty => some (List.append_eq_nil_iff.mp empty).1
          rw [stops]
          rfl

/-- What a successful command adds to a text. -/
def addedText (known : List UInt8) (finished : Finished) : List UInt8 :=
  match finished.file with
  | none => []
  | some file =>
      if known = [] then firstKept noSeparator keptCounts (ascii "serial:") (readable file)
      else ((readable file).findSome? (keptBehind noSeparator (ascii "serial:"))).getD []

theorem getMacAddressBySystem_yields (card : Card) (known : List UInt8) :
    Traced.Yields Look.Inside (getMacAddressBySystem card known) (tells (
      if (card.system lshwCommand).status = 0 then known ++ addedText known (card.system lshwCommand) else known)) := by
  refine byProgram_yields (fun _ => inside_of_string) ?_
  rw [addedText]
  cases (card.system lshwCommand).file with
  | none =>
      rw [List.append_nil]
      exact Traced.yields_pure
  | some file =>
      have read : Traced.Yields InsideString (parseMacAddress (some file) (ascii "serial:") known) _ :=
        readLines_yields (fun _ _ _ free => parseLine_yields free) file known
      by_cases empty : known = []
      · subst empty
        rw [foldLines_firstKept parseStep_tells] at read
        exact read
      · rw [foldLines_known empty] at read
        simp only [if_neg empty]
        exact read

theorem macText_some (card : Card) : macText card ≠ [] := by
  intro empty
  have size := card.size
  have first : card.saData[0] ∈ card.saData.take 6 := List.mem_take_iff_getElem.mpr ⟨0, by omega, rfl⟩
  exact absurd (List.flatMap_eq_nil_iff.mp empty _ first) (List.cons_ne_nil _ _)

/-- The digits are told whenever there is a socket. If the call fails they are told all the same, and what the program
finds is added to them. Only without a socket can `get_mac_address` fail, and then the program alone counts. -/
theorem getMacAddress_yields (card : Card) :
    Traced.Yields Look.Inside (getMacAddress card)
      (if card.sock < 0 then
        tells (if (card.system lshwCommand).status = 0 then addedText [] (card.system lshwCommand) else [])
      else if card.ioctl ≥ 0 then (macText card, true)
      else if (card.system lshwCommand).status = 0 then
        (macText card ++ addedText (macText card) (card.system lshwCommand), true)
      else (macText card, true)) := by
  have digits := macText_some card
  rw [getMacAddress, getMacAddressByIoctl]
  refine Traced.yields_bind Traced.yields_pure ?_
  by_cases closed : card.sock < 0
  · rw [if_pos closed, if_pos closed]
    exact getMacAddressBySystem_yields card []
  · rw [if_neg closed, if_neg closed]
    by_cases answered : card.ioctl ≥ 0
    · rw [if_pos answered]
      simp only [answered, decide_true, if_true]
      exact Traced.yields_pure
    · have asked := getMacAddressBySystem_yields card (macText card)
      rw [if_neg answered]
      simp only [answered, decide_false, Bool.false_eq_true, if_false]
      by_cases successful : (card.system lshwCommand).status = 0
      · have some : macText card ++ addedText (macText card) (card.system lshwCommand) ≠ [] :=
          fun empty => digits (List.append_eq_nil_iff.mp empty).1
        rw [if_pos successful, tells, List.isEmpty_eq_false_iff.mpr some] at asked
        rw [if_pos successful]
        exact asked
      · rw [if_neg successful, tells, List.isEmpty_eq_false_iff.mpr digits] at asked
        rw [if_neg successful]
        exact asked

/-- A board is asked by root only. -/
theorem getBoardSerialNumber_yields (machine : Machine) :
    Traced.Yields Look.Inside (getBoardSerialNumber machine) (tells (
      if machine.uid = 0 ∧ (machine.system dmidecodeCommand).status = 0 then
        ((machine.system dmidecodeCommand).file.map fun file =>
          firstKept notBlank boardCounts (ascii "Serial Number:") (readable file)).getD []
      else [])) := by
  have asked : Traced.Yields Look.Inside (getBoardSerialBySystem machine []) (tells (
      if (machine.system dmidecodeCommand).status = 0 then
        ((machine.system dmidecodeCommand).file.map fun file =>
          firstKept notBlank boardCounts (ascii "Serial Number:") (readable file)).getD []
      else [])) := by
    refine byProgram_yields (fun _ => inside_of_string) ?_
    cases (machine.system dmidecodeCommand).file with
    | none => exact Traced.yields_pure
    | some file => exact parseBoardSerial_first file _
  rw [getBoardSerialNumber]
  by_cases root : machine.uid = 0
  · simp only [root, true_and, if_true]
    exact asked
  · simp only [root, false_and, if_false]
    exact Traced.yields_pure

end Dwadelib.Hardware
