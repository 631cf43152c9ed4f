import Dwadelib.Hardware.Lines

namespace Dwadelib.Hardware

/-! # What the lines of a file tell

`parse_cpu_id`, `parse_mac_address` and `parse_board_serial` keep some of the characters behind a match,
`get_disk_name` finds the device that is mounted at the root. They are the same in `hardware.cpp` and in the programs
for one of them each.
-/

def blank : UInt8 := 32
def colon : UInt8 := 58
def slash : UInt8 := 47

def isdigit (byte : UInt8) : Bool := 48 ≤ byte ∧ byte ≤ 57

/-- One round of the loop over the characters behind the match. -/
def keepRound (kept : UInt8 → Bool) (line : List UInt8) (state : Nat × List UInt8) :
    Traced Nat (Iteration (Nat × List UInt8) (List UInt8)) := do
  let byte ← .peek id line state.1
  if byte = 0 then return .stop state.2
  else return .next (state.1 + 1, if kept byte then state.2 ++ [byte] else state.2)

/-- The characters that are kept are added to the text; `none` where the line has no match. -/
def keepBehind (kept : UInt8 → Bool) (matchWords line text : List UInt8) : Traced Nat (Option (List UInt8)) := do
  match ← strstr line 0 matchWords with
  | none => return none
  | some found =>
      let text ← .loop (keepRound kept line) (line.length + 1) (found + matchWords.length, text)
      return some text

/-- What two of the functions do with a line. -/
def parseLine (kept : UInt8 → Bool) (matchWords line text : List UInt8) :
    Traced Nat (Iteration (List UInt8) (List UInt8)) := do
  match ← keepBehind kept matchWords line text with
  | none => return .next text
  | some text => if text = [] then return .next text else return .stop text

def notBlank (byte : UInt8) : Bool := byte ≠ blank

def parseCpuId (file : Option (List UInt8)) (matchWords cpuId : List UInt8) : Traced Inspection (List UInt8) :=
  readLines (parseLine notBlank matchWords) file cpuId

def noSeparator (byte : UInt8) : Bool := byte ≠ blank ∧ byte ≠ colon

def parseMacAddress (file : Option (List UInt8)) (matchWords macAddress : List UInt8) :
    Traced Inspection (List UInt8) :=
  readLines (parseLine noSeparator matchWords) file macAddress

/-- `None` -/
def noneText : List UInt8 := [78, 111, 110, 101]

/-- What `parse_board_serial` does with a line: a board without a number says so. -/
def boardLine (matchWords line boardSerial : List UInt8) : Traced Nat (Iteration (List UInt8) (List UInt8)) := do
  match ← keepBehind notBlank matchWords line boardSerial with
  | none => return .next boardSerial
  | some boardSerial =>
      if boardSerial = noneText then return .next []
      else if boardSerial = [] then return .next boardSerial
      else return .stop boardSerial

def parseBoardSerial (file : Option (List UInt8)) (matchWords boardSerial : List UInt8) :
    Traced Inspection (List UInt8) :=
  readLines (boardLine matchWords) file boardSerial

/-- One round of a loop that goes back from the end of a part over some of its bytes. -/
def backRound (drops : UInt8 → Bool) (line : List UInt8) (first last : Nat) : Traced Nat (Iteration Nat Nat) := do
  if last > first then
    let byte ← .peek id line (last - 1)
    if drops byte then return .next (last - 1) else return .stop last
  else return .stop last

/-- `while (space > disk && isdigit(space[-1])) --space` -/
def digitRound : List UInt8 → (disk space : Nat) → Traced Nat (Iteration Nat Nat) := backRound isdigit

/-- What `get_disk_name` does with a line. -/
def mountLine (line diskName : List UInt8) : Traced Nat (Iteration (List UInt8) (List UInt8)) := do
  let disk ← .loop (skipRound line) (line.length + 1) 0
  match ← strchr line disk blank with
  | none => return .next diskName
  | some space =>
      let mount ← .loop (skipRound line) (line.length + 1) (space + 1)
      if (← .peek id line mount) ≠ slash then return .next diskName
      else if (← .peek id line (mount + 1)) ≠ blank then return .next diskName
      else
        let space ← .loop (digitRound line disk) (space + 1) space
        if space > disk then return .stop (← copy line disk (space - disk))
        else return .next diskName

/-- The new `disk_name` and what is returned, with the file at `/etc/mtab`. -/
def getDiskName (mtab : Option (List UInt8)) (diskName : List UInt8) : Traced Inspection (List UInt8 × Bool) := do
  match mtab with
  | none => return (diskName, false)
  | some _ =>
      let diskName ← readLines mountLine mtab diskName
      return (diskName, !diskName.isEmpty)

/-- What is kept behind the first match of a line. -/
def keptBehind (kept : UInt8 → Bool) (matchWords line : List UInt8) : Option (List UInt8) :=
  (occurrence matchWords line).map fun found => (line.drop (found + matchWords.length)).filter kept

/-- The device of a line, without the number of its partition, if it is mounted at the root. -/
def rootDisk (line : List UInt8) : Option (List UInt8) :=
  let front := line.dropWhile isspace
  let device := front.takeWhile fun byte => byte ≠ blank
  let mount := (front.drop (device.length + 1)).dropWhile isspace
  let disk := device.rdropWhile isdigit
  if [slash, blank] <+: mount ∧ disk ≠ [] then some disk else none

variable {line junk text words : List UInt8} {lines : List (List UInt8)} {kept : UInt8 → Bool} {first place : Nat}

/-- What is left of the string is still to be kept. -/
structure Keeping (kept : UInt8 → Bool) (line whole : List UInt8) (state : Nat × List UInt8) : Prop where
  inside : state.1 ≤ line.length
  rest : state.2 ++ (line.drop state.1).filter kept = whole

theorem keepRound_yields {whole : List UInt8} {state : Nat × List UInt8} (free : 0 ∉ line)
    (keeping : Keeping kept line whole state) :
    (∃ result, Traced.Yields (fun place => place ≤ line.length) (keepRound kept (stored line junk) state) (.stop result) ∧
      result = whole) ∨
    ∃ after, Traced.Yields (fun place => place ≤ line.length) (keepRound kept (stored line junk) state) (.next after) ∧
      Keeping kept line whole after ∧ line.length - after.1 < line.length - state.1 := by
  obtain ⟨place, text⟩ := state
  obtain ⟨inside, rest⟩ := keeping
  rcases Nat.lt_or_eq_of_le inside with before | rfl
  · right
    have other : (line)[place] ≠ 0 := fun zero => free (zero ▸ List.getElem_mem before)
    have here : line.drop place = (line)[place] :: line.drop (place + 1) := List.drop_eq_getElem_cons before
    refine ⟨(place + 1, if kept (line)[place] then text ++ [(line)[place]] else text),
      Traced.yields_bind (look_stored before) ?_, ⟨before, ?_⟩, Nat.sub_succ_lt_self _ _ before⟩
    · rw [if_neg other]
      exact Traced.yields_pure
    · rw [← rest]
      simp only [here]
      cases keeps : kept (line)[place] with
      | true => rw [if_pos rfl, List.filter_cons_of_pos keeps, List.append_assoc, List.singleton_append]
      | false =>
          rw [if_neg Bool.false_ne_true, List.filter_cons_of_neg]
          rw [keeps]
          exact Bool.false_ne_true
  · left
    refine ⟨text, Traced.yields_bind look_end Traced.yields_pure, ?_⟩
    rw [← rest]
    simp only [List.drop_length, List.filter_nil, List.append_nil]

theorem keep_yields (free : 0 ∉ line) (begun : first ≤ line.length) :
    Traced.Yields (fun place => place ≤ line.length)
      (.loop (keepRound kept (stored line junk)) ((stored line junk).length + 1) (first, text))
      (text ++ (line.drop first).filter kept) := by
  have start : Keeping kept line (text ++ (line.drop first).filter kept) (first, text) := ⟨begun, rfl⟩
  have enough : line.length - first < (stored line junk).length + 1 := by
    rw [stored, List.length_append]
    omega
  obtain ⟨result, looped, rfl⟩ := Traced.yields_loop (fun state : Nat × List UInt8 => line.length - state.1)
    (fun _ keeping => keepRound_yields free keeping) start enough
  exact looped

theorem keepBehind_yields (free : 0 ∉ line) :
    Traced.Yields (fun place => place ≤ line.length) (keepBehind kept words (stored line junk) text)
      ((keptBehind kept words line).map fun more => text ++ more) := by
  have search : Traced.Yields (fun place => place ≤ line.length) (strstr (stored line junk) 0 words)
      ((occurrence words line).map fun index => 0 + index) :=
    Traced.yields_bind (stringAt_yields free (Nat.zero_le _)) Traced.yields_pure
  rw [keepBehind]
  refine Traced.yields_bind search ?_
  cases found : occurrence words line with
  | none =>
      rw [keptBehind, found]
      exact Traced.yields_pure
  | some index =>
      rw [keptBehind, found, Option.map_some, Option.map_some, Option.map_some, Nat.zero_add]
      exact Traced.yields_bind (keep_yields free (fits_of_occurrence found)) Traced.yields_pure

/-- The first text behind a match that counts. -/
def firstKept (kept : UInt8 → Bool) (counts : List UInt8 → Bool) (matchWords : List UInt8)
    (lines : List (List UInt8)) : List UInt8 :=
  ((lines.filterMap (keptBehind kept matchWords)).find? counts).getD []

def keptCounts (text : List UInt8) : Bool := text ≠ []

def boardCounts (text : List UInt8) : Bool := text ≠ [] ∧ text ≠ noneText

/-- One line for `parseLine`, as a function of its string. -/
def parseStep (kept : UInt8 → Bool) (matchWords line text : List UInt8) : Iteration (List UInt8) (List UInt8) :=
  match keptBehind kept matchWords line with
  | none => .next text
  | some more => if text ++ more = [] then .next (text ++ more) else .stop (text ++ more)

def boardStep (matchWords line text : List UInt8) : Iteration (List UInt8) (List UInt8) :=
  match keptBehind notBlank matchWords line with
  | none => .next text
  | some more =>
      if text ++ more = noneText then .next []
      else if text ++ more = [] then .next (text ++ more)
      else .stop (text ++ more)

theorem parseLine_yields (free : 0 ∉ line) :
    Traced.Yields (fun place => place ≤ line.length) (parseLine kept words (stored line junk) text)
      (parseStep kept words line text) := by
  refine Traced.yields_bind (keepBehind_yields free) ?_
  rw [parseStep]
  cases keptBehind kept words line with
  | none => exact Traced.yields_pure
  | some more =>
      simp only [Option.map_some]
      by_cases empty : text ++ more = []
      · rw [if_pos empty, if_pos empty]
        exact Traced.yields_pure
      · rw [if_neg empty, if_neg empty]
        exact Traced.yields_pure

theorem boardLine_yields (free : 0 ∉ line) :
    Traced.Yields (fun place => place ≤ line.length) (boardLine words (stored line junk) text)
      (boardStep words line text) := by
  refine Traced.yields_bind (keepBehind_yields free) ?_
  rw [boardStep]
  cases keptBehind notBlank words line with
  | none => exact Traced.yields_pure
  | some more =>
      simp only [Option.map_some]
      by_cases unnumbered : text ++ more = noneText
      · rw [if_pos unnumbered, if_pos unnumbered]
        exact Traced.yields_pure
      · rw [if_neg unnumbered, if_neg unnumbered]
        by_cases empty : text ++ more = []
        · rw [if_pos empty, if_pos empty]
          exact Traced.yields_pure
        · rw [if_neg empty, if_neg empty]
          exact Traced.yields_pure

/-- While nothing is known, a line that tells nothing leaves it so. -/
theorem foldLines_firstKept {step : List UInt8 → List UInt8 → Iteration (List UInt8) (List UInt8)}
    {counts : List UInt8 → Bool}
    (tells : ∀ line, step line [] =
      match (keptBehind kept words line).filter counts with
      | none => .next []
      | some more => .stop more) :
    foldLines step lines [] = firstKept kept counts words lines := by
  induction lines with
  | nil => rfl
  | cons line lines ih =>
      rw [foldLines, tells, firstKept, List.filterMap_cons]
      cases found : keptBehind kept words line with
      | none => exact ih
      | some more =>
          cases counted : counts more with
          | true => simp only [Option.filter_some, counted, if_true, List.find?_cons_of_pos, Option.getD_some]
          | false =>
              simp only [Option.filter_some, counted, Bool.false_eq_true, if_false, not_false_eq_true,
                List.find?_cons_of_neg]
              exact ih

theorem parseStep_tells (line : List UInt8) :
    parseStep kept words line [] =
      match (keptBehind kept words line).filter keptCounts with
      | none => .next []
      | some more => .stop more := by
  rw [parseStep]
  cases keptBehind kept words line with
  | none => rfl
  | some more =>
      simp only [List.nil_append, Option.filter_some, keptCounts]
      by_cases empty : more = []
      · simp [empty]
      · simp [empty]

theorem boardStep_tells (line : List UInt8) :
    boardStep words line [] =
      match (keptBehind notBlank words line).filter boardCounts with
      | none => .next []
      | some more => .stop more := by
  rw [boardStep]
  cases keptBehind notBlank words line with
  | none => rfl
  | some more =>
      simp only [List.nil_append, Option.filter_some, boardCounts]
      by_cases unnumbered : more = noneText
      · simp [unnumbered]
      · by_cases empty : more = []
        · simp [empty]
        · simp [empty, unnumbered]

theorem parseCpuId_first (file matchWords : List UInt8) :
    Traced.Yields InsideString (parseCpuId (some file) matchWords [])
      (firstKept notBlank keptCounts matchWords (readable file)) := by
  rw [← foldLines_firstKept parseStep_tells]
  exact readLines_yields (fun _ _ _ free => parseLine_yields free) file []

theorem parseBoardSerial_first (file matchWords : List UInt8) :
    Traced.Yields InsideString (parseBoardSerial (some file) matchWords [])
      (firstKept notBlank boardCounts matchWords (readable file)) := by
  rw [← foldLines_firstKept boardStep_tells]
  exact readLines_yields (fun _ _ _ free => boardLine_yields free) file []

theorem peek_yields (inside : place ≤ line.length) :
    Traced.Yields (fun place => place ≤ line.length) (.peek id (stored line junk) place) ((line.drop place).headD 0) := by
  rcases Nat.lt_or_eq_of_le inside with before | rfl
  · rw [List.drop_eq_getElem_cons before]
    exact look_stored before
  · rw [List.drop_length]
    exact look_end

/-- Only bytes that are dropped are between the place and the end. -/
structure Backing (drops : UInt8 → Bool) (line : List UInt8) (first last place : Nat) : Prop where
  same : (slice line first place).rdropWhile drops = (slice line first last).rdropWhile drops
  inside : place ≤ line.length

theorem backRound_yields {drops : UInt8 → Bool} {last : Nat} (backing : Backing drops line first last place) :
    (∃ result, Traced.Yields (fun place => place ≤ line.length) (backRound drops (stored line junk) first place)
        (.stop result) ∧
      slice line first result = (slice line first last).rdropWhile drops ∧ result ≤ line.length) ∨
    ∃ after, Traced.Yields (fun place => place ≤ line.length) (backRound drops (stored line junk) first place)
        (.next after) ∧
      Backing drops line first last after ∧ after < place := by
  obtain ⟨same, inside⟩ := backing
  by_cases some : place > first
  · have before : place - 1 < line.length := by omega
    have concat : slice line first place = slice line first (place - 1) ++ [(line)[place - 1]] := slice_concat some inside
    rw [backRound, if_pos some]
    by_cases dropped : drops (line)[place - 1]
    · right
      refine ⟨place - 1, Traced.yields_bind (look_stored before) ?_, ⟨?_, Nat.le_of_lt before⟩, by omega⟩
      · rw [if_pos dropped]
        exact Traced.yields_pure
      · rw [← same, concat, List.rdropWhile_concat_pos _ _ _ dropped]
    · left
      refine ⟨place, Traced.yields_bind (look_stored before) ?_, ?_, inside⟩
      · rw [if_neg dropped]
        exact Traced.yields_pure
      · rw [← same, concat, List.rdropWhile_concat_neg _ _ _ dropped]
  · left
    refine ⟨place, ?_, ?_, inside⟩
    · rw [backRound, if_neg some]
      exact Traced.yields_pure
    · rw [← same, slice_empty (Nat.le_of_not_lt some)]
      rfl

theorem back_yields {drops : UInt8 → Bool} {last : Nat} (begun : last ≤ line.length) :
    ∃ result, Traced.Yields (fun place => place ≤ line.length)
      (.loop (backRound drops (stored line junk) first) (last + 1) last) result ∧
        slice line first result = (slice line first last).rdropWhile drops ∧ result ≤ line.length :=
  Traced.yields_loop (fun place => place) (fun _ backing => backRound_yields backing) ⟨rfl, begun⟩
    (Nat.lt_succ_self last)

theorem mounted_iff (mount : List UInt8) :
    [slash, blank] <+: mount ↔ mount.headD 0 = slash ∧ mount.tail.headD 0 = blank := by
  match mount with
  | [] => exact iff_of_false (by simp) fun both => absurd both.1 (by decide)
  | [first] =>
      refine iff_of_false (fun begins => ?_) fun both => absurd (show (0 : UInt8) = blank from both.2) (by decide)
      exact absurd begins.length_le (show ¬ 2 ≤ 1 by decide)
  | first :: second :: rest =>
      rw [List.cons_prefix_cons, List.cons_prefix_cons]
      simp only [List.nil_prefix, and_true, List.headD_cons, List.tail_cons]
      exact and_congr eq_comm eq_comm

/-- What a line of the table tells. -/
def mountStep (line diskName : List UInt8) : Iteration (List UInt8) (List UInt8) :=
  match rootDisk line with
  | none => .next diskName
  | some disk => .stop disk

/-- Without a blank there is no mount. -/
theorem rootDisk_unmounted (missing : blank ∉ line.dropWhile isspace) : rootDisk line = none := by
  have whole : (line.dropWhile isspace).takeWhile (fun byte => byte ≠ blank) = line.dropWhile isspace := by
    rw [List.takeWhile_eq_self_iff]
    intro byte member
    exact decide_eq_true fun same => missing (same ▸ member)
  have nothing : ((line.dropWhile isspace).drop ((line.dropWhile isspace).length + 1)).dropWhile isspace = [] := by
    rw [List.drop_eq_nil_of_le (Nat.le_succ _)]
    rfl
  simp only [rootDisk, whole, nothing]
  exact if_neg fun mounted => absurd mounted.1 (by simp)

theorem rootDisk_some {disk : List UInt8} (named : rootDisk line = some disk) : disk ≠ [] := by
  simp only [rootDisk] at named
  split at named
  · rename_i mounted
    cases named
    exact mounted.2
  · contradiction

theorem mountLine_yields (free : 0 ∉ line) :
    Traced.Yields (fun place => place ≤ line.length) (mountLine (stored line junk) text) (mountStep line text) := by
  obtain ⟨disk, skipped, front, inside⟩ : ∃ disk, Traced.Yields (fun place => place ≤ line.length)
      (.loop (skipRound (stored line junk)) ((stored line junk).length + 1) 0) disk ∧
        line.drop disk = (line.drop 0).dropWhile isspace ∧ disk ≤ line.length := skip_yields (Nat.zero_le line.length)
  rw [List.drop_zero] at front
  have searched : Traced.Yields (fun place => place ≤ line.length) (strchr (stored line junk) disk blank)
      (((line.drop disk).findIdx? fun other => other = blank).map fun index => disk + index) :=
    Traced.yields_bind (stringAt_yields free inside) Traced.yields_pure
  refine Traced.yields_bind skipped (Traced.yields_bind searched ?_)
  rw [mountStep]
  cases found : (line.drop disk).findIdx? (fun other => other = blank) with
  | none =>
      have missing : blank ∉ line.dropWhile isspace := by
        rw [← front]
        intro member
        have none := List.findIdx?_eq_none_iff.mp found blank member
        simp at none
      rw [rootDisk_unmounted missing]
      exact Traced.yields_pure
  | some index =>
      obtain ⟨before, ends⟩ := List.findIdx?_eq_some_iff_findIdx_eq.mp found
      rw [List.length_drop] at before
      have device : (line.dropWhile isspace).takeWhile (fun byte => byte ≠ blank) = (line.drop disk).take index := by
        rw [← front, List.takeWhile_eq_take_findIdx_not]
        simp only [ne_eq, decide_not, Bool.not_not]
        rw [ends]
      have length : ((line.drop disk).take index).length = index :=
        List.length_take_of_le (by rw [List.length_drop]; omega)
      have part : slice line disk (disk + index) = (line.drop disk).take index := by rw [slice, ← List.take_drop]
      have after : disk + index + 1 ≤ line.length := by omega
      obtain ⟨mount, mounted, behind, upper⟩ : ∃ mount, Traced.Yields (fun place => place ≤ line.length)
          (.loop (skipRound (stored line junk)) ((stored line junk).length + 1) (disk + index + 1)) mount ∧
            line.drop mount = (line.drop (disk + index + 1)).dropWhile isspace ∧ mount ≤ line.length :=
        skip_yields after
      obtain ⟨last, backed, cut, fits⟩ : ∃ last, Traced.Yields (fun place => place ≤ line.length)
          (.loop (digitRound (stored line junk) disk) (disk + index + 1) (disk + index)) last ∧
            slice line disk last = (slice line disk (disk + index)).rdropWhile isdigit ∧ last ≤ line.length :=
        back_yields (Nat.le_of_succ_le after)
      have tail : line.drop (mount + 1) = (line.drop mount).tail := List.tail_drop.symm
      have root : rootDisk line =
          if ((line.drop mount).headD 0 = slash ∧ (line.drop (mount + 1)).headD 0 = blank) ∧ slice line disk last ≠ []
          then some (slice line disk last) else none := by
        rw [tail, cut, part, behind]
        simp only [← mounted_iff, rootDisk, device, length]
        rw [← front, List.drop_drop, Nat.add_assoc]
      rw [root]
      refine Traced.yields_bind mounted (Traced.yields_bind (peek_yields upper) ?_)
      by_cases slashed : (line.drop mount).headD 0 = slash
      · have inside : mount + 1 ≤ line.length := by
          by_contra outside
          rw [List.drop_eq_nil_of_le (by omega)] at slashed
          contradiction
        rw [if_neg (not_not.mpr slashed)]
        refine Traced.yields_bind (peek_yields inside) ?_
        by_cases blanked : (line.drop (mount + 1)).headD 0 = blank
        · rw [if_neg (not_not.mpr blanked)]
          refine Traced.yields_bind backed ?_
          by_cases some : last > disk
          · have named : slice line disk last ≠ [] := by
              rw [← List.length_pos_iff, length_slice fits]
              omega
            rw [if_pos some, if_pos ⟨⟨slashed, blanked⟩, named⟩]
            exact Traced.yields_bind (copy_stored some fits) Traced.yields_pure
          · rw [if_neg some, if_neg fun all => all.2 (slice_empty (Nat.le_of_not_lt some))]
            exact Traced.yields_pure
        · rw [if_pos blanked, if_neg fun all => blanked all.1.2]
          exact Traced.yields_pure
      · rw [if_pos slashed, if_neg fun all => slashed all.1.1]
        exact Traced.yields_pure

/-- The first line that is mounted at the root tells the device. -/
theorem foldLines_mount (lines : List (List UInt8)) :
    foldLines mountStep lines [] = (lines.findSome? rootDisk).getD [] := by
  induction lines with
  | nil => rfl
  | cons line lines ih =>
      rw [foldLines, mountStep, List.findSome?_cons]
      cases rootDisk line with
      | none => exact ih
      | some disk => rfl

/-- The device that the table tells. -/
def mountedDisk (mtab : Option (List UInt8)) : Option (List UInt8) :=
  mtab.bind fun text => (readable text).findSome? rootDisk

/-- Whatever is in the table, only strings are looked at, and the device of the first line that is mounted at the root
and has a name without the number is what `get_disk_name` tells; there is one exactly if it says so. -/
theorem getDiskName_yields (mtab : Option (List UInt8)) :
    Traced.Yields InsideString (getDiskName mtab []) ((mountedDisk mtab).getD [], (mountedDisk mtab).isSome) := by
  cases mtab with
  | none => exact Traced.yields_pure
  | some text =>
      have read : Traced.Yields InsideString (readLines mountLine (some text) [])
          (((readable text).findSome? rootDisk).getD []) := by
        rw [← foldLines_mount]
        exact readLines_yields (fun _ _ _ free => mountLine_yields free) text []
      refine Traced.yields_bind read ?_
      have told : (!(((readable text).findSome? rootDisk).getD []).isEmpty) =
          ((readable text).findSome? rootDisk).isSome := by
        cases found : (readable text).findSome? rootDisk with
        | none => rfl
        | some disk =>
            obtain ⟨line, -, named⟩ := List.exists_of_findSome?_eq_some found
            cases disk with
            | nil => exact absurd rfl (rootDisk_some named)
            | cons byte disk => rfl
      rw [told]
      exact Traced.yields_pure

end Dwadelib.Hardware
