import Dwadelib.Hardware.Lines

namespace Dwadelib.Hardware

/-! # The serial number in any file

The report of a program need not be a text. Where a line has a zero byte, the match and the comma are looked for before
it, but without a comma the serial number goes on to the end of the line.
-/

variable {line junk words serialNo text : List UInt8} {lines : List (List UInt8)} {first place : Nat}

/-- The text behind the first match, up to the comma, and without whitespace at its ends. -/
def serialIn (matchWords line : List UInt8) : List UInt8 :=
  match occurrence matchWords (CString.contents line) with
  | none => []
  | some found =>
      let front := (line.drop (found + matchWords.length)).dropWhile isspace
      let part := if comma ∈ CString.contents front then front.takeWhile fun byte => byte ≠ comma else front
      part.rdropWhile isspace

/-- The first of the lines that tells something counts. -/
def serialAmong (matchWords : List UInt8) (lines : List (List UInt8)) : Option (List UInt8) :=
  (lines.map (serialIn matchWords)).find? fun serial => serial ≠ []

theorem length_contents_le : (CString.contents line).length ≤ line.length :=
  (List.takeWhile_prefix _).length_le

theorem contents_drop (inside : place ≤ (CString.contents line).length) :
    CString.contents (line.drop place) = (CString.contents line).drop place := by
  induction place generalizing line with
  | zero => rfl
  | succ place ih =>
      cases line with
      | nil => contradiction
      | cons byte line =>
          by_cases zero : byte = 0
          · rw [zero] at inside
            contradiction
          · have kept : CString.contents (byte :: line) = byte :: CString.contents line :=
              List.takeWhile_cons_of_pos (decide_eq_true zero)
            rw [kept, List.length_cons] at inside
            rw [kept, List.drop_succ_cons, List.drop_succ_cons, ih (Nat.le_of_succ_le_succ inside)]

/-- Behind the match the string is looked at, but the pointer is the same in the whole line. -/
theorem front_yields (junk : List UInt8) (begun : first ≤ (CString.contents line).length) :
    ∃ serialS, Traced.Yields (fun place => place ≤ line.length)
      (.loop (skipRound (stored line junk)) ((stored line junk).length + 1) first) serialS ∧
        line.drop serialS = (line.drop first).dropWhile isspace ∧ serialS ≤ (CString.contents line).length := by
  obtain ⟨serialS, skipped, front, -⟩ : ∃ serialS, Traced.Yields (fun place => place ≤ line.length)
      (.loop (skipRound (stored line junk)) ((stored line junk).length + 1) first) serialS ∧
        line.drop serialS = (line.drop first).dropWhile isspace ∧ serialS ≤ line.length :=
    skip_yields (Nat.le_trans begun length_contents_le)
  obtain ⟨others, same⟩ := string_of_line line junk
  obtain ⟨stringS, again, -, inside⟩ : ∃ stringS, Traced.Yields (fun place => place ≤ (CString.contents line).length)
      (.loop (skipRound (stored (CString.contents line) others)) ((stored (CString.contents line) others).length + 1)
        first) stringS ∧
        (CString.contents line).drop stringS = ((CString.contents line).drop first).dropWhile isspace ∧
          stringS ≤ (CString.contents line).length :=
    skip_yields begun
  rw [← same] at again
  have equal : serialS = stringS := Outcome.returned.inj (skipped.returned.symm.trans again.returned)
  exact ⟨serialS, skipped, front, equal ▸ inside⟩

/-- Where the serial number may end. -/
theorem ending_yields (junk : List UInt8) (begun : place ≤ (CString.contents line).length) :
    ∃ found : Option Nat, Traced.Yields (fun place => place ≤ line.length) (strchr (stored line junk) place comma) found ∧
      slice line place (found.getD line.length) =
        (if comma ∈ CString.contents (line.drop place) then (line.drop place).takeWhile fun byte => byte ≠ comma
          else line.drop place) ∧
      found.getD line.length ≤ line.length := by
  obtain ⟨others, same⟩ := string_of_line line junk
  have searched : Traced.Yields (fun place => place ≤ (CString.contents line).length)
      (strchr (stored (CString.contents line) others) place comma)
      ((((CString.contents line).drop place).findIdx? fun other => other = comma).map fun index => place + index) :=
    Traced.yields_bind (stringAt_yields contents_free begun) Traced.yields_pure
  rw [← same, ← contents_drop begun] at searched
  refine ⟨_, searched.mono fun _ inside => Nat.le_trans inside length_contents_le, ?_⟩
  cases found : (CString.contents (line.drop place)).findIdx? (fun other => other = comma) with
  | none =>
      have missing : comma ∉ CString.contents (line.drop place) := by
        intro member
        have none := List.findIdx?_eq_none_iff.mp found comma member
        simp at none
      rw [if_neg missing, Option.map_none, Option.getD_none, slice, List.take_length]
      exact ⟨rfl, Nat.le_refl _⟩
  | some index =>
      obtain ⟨before, ends⟩ := List.findIdx?_eq_some_iff_findIdx_eq.mp found
      have member : comma ∈ CString.contents (line.drop place) := by
        obtain ⟨here, matched, -⟩ := List.findIdx?_eq_some_iff_getElem.mp found
        exact of_decide_eq_true matched ▸ List.getElem_mem here
      have length : (CString.contents (line.drop place)).length ≤ line.length - place := by
        rw [← List.length_drop]
        exact length_contents_le
      have whole : (line.drop place).findIdx (fun other => other = comma) = index := by
        rw [← ends] at before
        rw [← List.takeWhile_append_dropWhile (p := fun byte => byte ≠ 0) (l := line.drop place), List.findIdx_append,
          ← CString.contents, if_pos before, ends]
      rw [if_pos member, Option.map_some, Option.getD_some, slice, ← List.take_drop, List.takeWhile_eq_take_findIdx_not]
      simp only [ne_eq, decide_not, Bool.not_not, whole]
      exact ⟨trivial, by omega⟩

/-- What a line tells; only the line and the zero byte behind it are looked at. -/
theorem serialIn_yields :
    Traced.Yields (fun place => place ≤ line.length) (parseSerial (stored line junk) line.length words serialNo)
      (if serialIn words line = [] then (serialNo, false) else (serialIn words line, true)) := by
  obtain ⟨others, same⟩ := string_of_line line junk
  have search : Traced.Yields (fun place => place ≤ (CString.contents line).length)
      (strstr (stored (CString.contents line) others) 0 words)
      ((occurrence words (CString.contents line)).map fun index => 0 + index) :=
    Traced.yields_bind (stringAt_yields contents_free (Nat.zero_le _)) Traced.yields_pure
  rw [← same] at search
  rw [parseSerial]
  refine Traced.yields_bind (search.mono fun _ inside => Nat.le_trans inside length_contents_le) ?_
  cases found : occurrence words (CString.contents line) with
  | none =>
      simp only [serialIn, found, if_true, Option.map_none]
      exact Traced.yields_pure
  | some index =>
      obtain ⟨serialS, skipped, front, inside⟩ := front_yields junk (fits_of_occurrence found)
      obtain ⟨ending, searched, upTo, most⟩ := ending_yields junk inside
      obtain ⟨serialE, cut, whole, upper⟩ : ∃ serialE, Traced.Yields (fun place => place ≤ line.length)
          (.loop (cutRound (stored line junk) serialS) (ending.getD line.length + 1) (ending.getD line.length)) serialE ∧
            slice line serialS serialE = (slice line serialS (ending.getD line.length)).rdropWhile isspace ∧
              serialE ≤ line.length :=
        cut_yields most
      have kept : slice line serialS serialE = serialIn words line := by
        rw [whole, upTo, front, serialIn, found]
      rw [← kept, Option.map_some, Nat.zero_add]
      refine Traced.yields_bind skipped (Traced.yields_bind searched (Traced.yields_bind cut ?_))
      by_cases ended : serialE ≤ serialS
      · rw [if_pos ended, slice_empty ended]
        exact Traced.yields_pure
      · have some : slice line serialS serialE ≠ [] := by
          rw [← List.length_pos_iff, length_slice upper]
          omega
        rw [if_neg ended, if_neg some]
        exact Traced.yields_bind (copy_stored (Nat.lt_of_not_le ended) upper) Traced.yields_pure

/-- What a round does with a line. -/
def serialStep (matchWords line serialNo : List UInt8) : Iteration (List UInt8) (List UInt8) :=
  if serialIn matchWords line = [] then .next serialNo else .stop (serialIn matchWords line)

theorem foldLines_serial :
    foldLines (serialStep words) lines serialNo = (serialAmong words lines).getD serialNo := by
  induction lines with
  | nil => rfl
  | cons line lines ih =>
      rw [foldLines, serialStep, serialAmong, List.map_cons]
      by_cases empty : serialIn words line = []
      · rw [if_pos empty, List.find?_cons_of_neg (by simpa using empty)]
        exact ih
      · rw [if_neg empty, List.find?_cons_of_pos (by simpa using empty)]
        rfl

theorem serialRound_takes (all : List (List UInt8)) :
    TakesLines all (InsideLine all) (serialRound words) (serialStep words) where
  ends := by
    intro ifs value more bad
    simp only [serialRound, more, Bool.false_eq_true, if_false, if_pos bad]
    exact Traced.yields_pure
  does := by
    intro ifs value line rest more size unread unbroken short among
    have later := getline_stores unread unbroken size short
    have parsed : Traced.Yields (InsideLine all)
        (.renote (fun place => { line := stored line (ifs.line.drop (line.length + 1)), place })
          (parseSerial (stored line (ifs.line.drop (line.length + 1))) line.length words value))
        (if serialIn words line = [] then (value, false) else (serialIn words line, true)) := by
      refine Traced.yields_renote serialIn_yields fun place inside => ?_
      refine ⟨line, among, ⟨ifs.line.drop (line.length + 1), ?_⟩, inside⟩
      rw [List.append_assoc]
      rfl
    simp only [serialRound, more, later, Bool.false_eq_true, if_false, or_self, Nat.succ_ne_zero, Nat.add_sub_cancel]
    refine Traced.yields_bind parsed ?_
    rw [serialStep]
    by_cases empty : serialIn words line = []
    · rw [if_pos empty, if_pos empty, behind, later]
      exact Traced.yields_pure
    · rw [if_neg empty, if_neg empty]
      exact Traced.yields_pure

/-- Whatever is in a file, the first serial number of its lines is found, and nothing outside of a line is looked at. -/
theorem getSerial_yields (text : List UInt8) :
    Traced.Yields (InsideLine (storable text)) (getSerial (some text) words serialNo)
      ((serialAmong words (storable text)).getD serialNo) := by
  rw [← foldLines_serial]
  exact (serialRound_takes _).loop_yields (List.Subset.refl _) rfl (List.length_replicate ..) (Nat.lt_succ_self _)

/-- The text behind the first match, up to a comma and without whitespace at its ends. -/
def serialOf (matchWords line : List UInt8) : List UInt8 :=
  match occurrence matchWords line with
  | none => []
  | some found =>
      trim isspace isspace ((line.drop (found + matchWords.length)).takeWhile fun byte => byte ≠ comma)

/-- A line that `getline` can store. -/
structure ReportLine (line : List UInt8) : Prop where
  unbroken : newline ∉ line
  free : 0 ∉ line
  short : line.length < 4095

def report (lines : List (List UInt8)) : List UInt8 := lines.flatMap fun line => line ++ [newline]

/-- The first line that tells something counts, and without one what was known stays. -/
def firstSerial (matchWords : List UInt8) (lines : List (List UInt8)) (serialNo : List UInt8) : List UInt8 :=
  ((lines.map (serialOf matchWords)).find? fun serial => serial ≠ []).getD serialNo

theorem dropWhile_takeWhile {keeps drops : UInt8 → Bool} (apart : ∀ byte, drops byte → keeps byte) (text : List UInt8) :
    (text.takeWhile keeps).dropWhile drops = (text.dropWhile drops).takeWhile keeps := by
  induction text with
  | nil => rfl
  | cons byte text ih =>
      by_cases dropped : drops byte
      · rw [List.takeWhile_cons_of_pos (apart byte dropped), List.dropWhile_cons_of_pos dropped,
          List.dropWhile_cons_of_pos dropped, ih]
      · rw [List.dropWhile_cons_of_neg dropped]
        by_cases kept : keeps byte
        · rw [List.takeWhile_cons_of_pos kept, List.dropWhile_cons_of_neg dropped]
        · rw [List.takeWhile_cons_of_neg kept]
          rfl

/-- In a text without zero bytes the two ways to say what a line tells are one. -/
theorem serialIn_text (free : 0 ∉ line) : serialIn words line = serialOf words line := by
  have whole : ∀ {text : List UInt8}, 0 ∉ text → CString.contents text = text := fun absent =>
    List.takeWhile_eq_self_iff.mpr fun byte member => decide_eq_true (ne_of_mem_of_not_mem member absent)
  rw [serialIn, serialOf, whole free]
  cases occurrence words line with
  | none => rfl
  | some found =>
      have apart : ∀ byte, isspace byte → decide (byte ≠ comma) := by
        intro byte space
        rw [decide_eq_true_iff]
        rintro rfl
        contradiction
      have front : 0 ∉ (line.drop (found + words.length)).dropWhile isspace := fun member =>
        free (List.mem_of_mem_drop ((List.dropWhile_suffix _).subset member))
      dsimp only
      rw [whole front, trim, dropWhile_takeWhile apart]
      split
      · rfl
      · rename_i missing
        rw [List.takeWhile_eq_self_iff.mpr fun byte member => decide_eq_true (ne_of_mem_of_not_mem member missing)]

theorem linesOf_report (stores : ∀ line ∈ lines, ReportLine line) : linesOf (report lines) = lines := by
  induction lines with
  | nil => rfl
  | cons line lines ih =>
      obtain ⟨here, later⟩ := List.forall_mem_cons.mp stores
      rw [report, List.flatMap_cons, List.append_assoc, List.singleton_append, linesOf_line here.unbroken, ← report, ih later]

/-- Every line of a report gets into the array. -/
theorem storable_report (stores : ∀ line ∈ lines, ReportLine line) : storable (report lines) = lines := by
  rw [storable, linesOf_report stores]
  exact List.takeWhile_eq_self_iff.mpr fun line member => decide_eq_true (Nat.le_of_lt (stores line member).short)

/-- The first serial number of the lines is found, and nothing outside of a line is looked at. -/
theorem getSerial_first (stores : ∀ line ∈ lines, ReportLine line) :
    Traced.Yields (InsideLine lines) (getSerial (some (report lines)) words serialNo)
      (firstSerial words lines serialNo) := by
  have tells : serialAmong words lines = (lines.map (serialOf words)).find? fun serial => serial ≠ [] := by
    rw [serialAmong, List.map_congr_left fun line member => serialIn_text (stores line member).free]
  have yields : Traced.Yields (InsideLine (storable (report lines))) (getSerial (some (report lines)) words serialNo)
      ((serialAmong words (storable (report lines))).getD serialNo) := getSerial_yields (report lines)
  rw [storable_report stores, tells] at yields
  exact yields

/-- The second of three lines tells something: nothing is left of `id:␣,` and `A1` is left of `id:␣A1␣,Z`. -/
theorem getSerial_second :
    Traced.Yields (InsideLine [[105, 100, 58, 32, 44], [105, 100, 58, 32, 65, 49, 32, 44, 90], [105, 100, 58, 66]])
      (getSerial (some [105, 100, 58, 32, 44, 10, 105, 100, 58, 32, 65, 49, 32, 44, 90, 10, 105, 100, 58, 66, 10])
        [105, 100, 58] [63])
      [65, 49] :=
  getSerial_first (by
    simp only [List.forall_mem_cons]
    exact ⟨⟨by decide, by decide, by decide⟩, ⟨by decide, by decide, by decide⟩, ⟨by decide, by decide, by decide⟩,
      List.forall_mem_nil _⟩)

end Dwadelib.Hardware
