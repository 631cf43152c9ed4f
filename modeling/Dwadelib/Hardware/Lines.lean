import Dwadelib.Hardware.Report

namespace Dwadelib.Hardware

/-! # Files that are read by lines

The programs here read a file with `getline` while the stream is good. So the last line counts only if it ends with a
newline, and the first line that is too long for the array ends the reading. A line is used as a string, up to its
first zero byte.
-/

variable {τ : Type} {text line rest : List UInt8} {lines : List (List UInt8)} {value : τ} {fuel : Nat}

/-- One round of such a loop. What is done with the line may end it, too. -/
def lineRound (body : List UInt8 → τ → Traced Nat (Iteration τ τ)) (state : Ifs × τ) :
    Traced Inspection (Iteration (Ifs × τ) τ) := do
  let (ifs, value) := state
  if ifs.eof then return .stop value
  else
    let ifs := getline ifs
    if ifs.eof ∨ ifs.fail then return .stop value
    else
      match ← .renote (fun place => { line := ifs.line, place := place }) (body ifs.line value) with
      | .next value => return .next (ifs, value)
      | .stop value => return .stop value

/-- The whole loop, and what is known after it. Each round takes at least a byte from the file. -/
def readLines (body : List UInt8 → τ → Traced Nat (Iteration τ τ)) (file : Option (List UInt8)) (value : τ) :
    Traced Inspection τ :=
  match file with
  | none => return value
  | some text =>
      .loop (lineRound body) (text.length + 1)
        ({ unread := text, eof := false, fail := false, gcount := 0, line := .replicate 4096 0 }, value)

/-- The lines that end with a newline. -/
def linesOf : List UInt8 → List (List UInt8)
  | [] => []
  | byte :: text =>
      if byte = newline then [] :: linesOf text
      else
        match linesOf text with
        | [] => []
        | line :: lines => (byte :: line) :: lines

/-- The lines that get into the array. -/
def storable (text : List UInt8) : List (List UInt8) := (linesOf text).takeWhile fun line => line.length ≤ 4095

/-- The strings that come out of it. -/
def readable (text : List UInt8) : List (List UInt8) := (storable text).map CString.contents

/-- What is done with all lines when it is `step` that is done with one. -/
def foldLines (step : List UInt8 → τ → Iteration τ τ) : List (List UInt8) → τ → τ
  | [], value => value
  | line :: lines, value =>
      match step line value with
      | .next value => foldLines step lines value
      | .stop value => value

theorem linesOf_nil (none : linesOf text = []) : newline ∉ text := by
  induction text with
  | nil => exact List.not_mem_nil
  | cons byte text ih =>
      rw [linesOf] at none
      by_cases ends : byte = newline
      · rw [if_pos ends] at none
        contradiction
      · rw [if_neg ends] at none
        cases found : linesOf text with
        | nil =>
            rw [List.mem_cons, not_or]
            exact ⟨Ne.symm ends, ih found⟩
        | cons line lines =>
            rw [found] at none
            contradiction

theorem linesOf_cons (first : linesOf text = line :: lines) :
    newline ∉ line ∧ ∃ rest, text = line ++ newline :: rest ∧ linesOf rest = lines := by
  induction text generalizing line lines with
  | nil => contradiction
  | cons byte text ih =>
      rw [linesOf] at first
      by_cases ends : byte = newline
      · rw [if_pos ends] at first
        cases first
        exact ⟨List.not_mem_nil, text, by rw [ends]; rfl, rfl⟩
      · rw [if_neg ends] at first
        cases found : linesOf text with
        | nil =>
            rw [found] at first
            contradiction
        | cons front others =>
            rw [found] at first
            cases first
            obtain ⟨unbroken, rest, rfl, same⟩ := ih found
            refine ⟨?_, rest, rfl, same⟩
            rw [List.mem_cons, not_or]
            exact ⟨Ne.symm ends, unbroken⟩

theorem linesOf_line (unbroken : newline ∉ line) : linesOf (line ++ newline :: rest) = line :: linesOf rest := by
  induction line with
  | nil => rfl
  | cons byte line ih =>
      obtain ⟨other, later⟩ := not_or.mp (List.mem_cons.not.mp unbroken)
      rw [List.cons_append, linesOf, if_neg (Ne.symm other), ih later]

theorem untilNewline_free {room : Nat} (unbroken : newline ∉ text) : untilNewline room text = text.take room := by
  induction text generalizing room with
  | nil => cases room <;> rfl
  | cons byte text ih =>
      rw [List.mem_cons, not_or] at unbroken
      cases room with
      | zero => rfl
      | succ room => rw [untilNewline, if_neg (Ne.symm unbroken.1), ih unbroken.2, List.take_succ_cons]

theorem untilNewline_append {room : Nat} (unbroken : newline ∉ line) :
    untilNewline room (line ++ newline :: rest) = line.take room := by
  induction line generalizing room with
  | nil => cases room <;> rfl
  | cons byte line ih =>
      rw [List.mem_cons, not_or] at unbroken
      cases room with
      | zero => rfl
      | succ room =>
          rw [List.cons_append, untilNewline, if_neg (Ne.symm unbroken.1), ih unbroken.2, List.take_succ_cons]

/-- What is not followed by a newline ends the reading. -/
theorem getline_bad {ifs : Ifs} {front : List UInt8} (taken : untilNewline (ifs.line.length - 1) ifs.unread = front)
    (other : ∀ later, ifs.unread.drop front.length ≠ newline :: later) :
    (getline ifs).eof = true ∨ (getline ifs).fail = true := by
  rw [getline, taken]
  cases left : ifs.unread.drop front.length with
  | nil => exact .inl rfl
  | cons byte unread =>
      have differs : byte ≠ newline := by
        rintro rfl
        exact other unread left
      exact .inr (by simp only [if_neg differs])

theorem getline_unterminated {ifs : Ifs} (unbroken : newline ∉ ifs.unread) :
    (getline ifs).eof = true ∨ (getline ifs).fail = true := by
  refine getline_bad (untilNewline_free unbroken) fun later left => unbroken ?_
  exact List.mem_of_mem_drop (left ▸ List.mem_cons_self)

theorem getline_long {ifs : Ifs} (unread : ifs.unread = line ++ newline :: rest) (unbroken : newline ∉ line)
    (size : ifs.line.length = 4096) (long : 4095 < line.length) :
    (getline ifs).eof = true ∨ (getline ifs).fail = true := by
  have taken : untilNewline (ifs.line.length - 1) ifs.unread = line.take 4095 := by
    rw [unread, untilNewline_append unbroken, size]
  refine getline_bad taken fun later left => unbroken ?_
  have length : (line.take 4095).length = 4095 := List.length_take_of_le (Nat.le_of_lt long)
  have next : line.drop 4095 = (line)[4095] :: line.drop 4096 := List.drop_eq_getElem_cons long
  rw [unread, length, List.drop_append_of_le_length (Nat.le_of_lt long), next, List.cons_append, List.cons.injEq] at left
  rw [← left.1]
  exact List.getElem_mem long

/-- Any other line is stored, and its newline is counted. -/
theorem getline_stores {ifs : Ifs} (unread : ifs.unread = line ++ newline :: rest) (unbroken : newline ∉ line)
    (size : ifs.line.length = 4096) (short : line.length ≤ 4095) :
    getline ifs =
      { unread := rest
        eof := false
        fail := false
        gcount := line.length + 1
        line := stored line (ifs.line.drop (line.length + 1)) } := by
  have taken : untilNewline (ifs.line.length - 1) ifs.unread = line := by
    rw [unread, untilNewline_append unbroken, size, List.take_of_length_le short]
  have left : ifs.unread.drop line.length = newline :: rest := by
    rw [unread]
    exact List.drop_left
  rw [getline, taken, left]
  rfl

theorem storable_nil (none : linesOf text = []) : storable text = [] := by rw [storable, none]; rfl

theorem storable_long (first : linesOf text = line :: lines) (long : 4095 < line.length) : storable text = [] := by
  rw [storable, first, List.takeWhile_cons_of_neg (by simpa using long)]

theorem storable_cons (first : linesOf text = line :: linesOf rest) (short : line.length ≤ 4095) :
    storable text = line :: storable rest := by
  rw [storable, first, List.takeWhile_cons_of_pos (by simpa using short)]
  rfl

/-- The iteration of the loop that goes on behind a line. -/
def behind (ifs : Ifs) : Iteration τ τ → Iteration (Ifs × τ) τ
  | .next value => .next (getline ifs, value)
  | .stop value => .stop value

section Loop

variable {all : List (List UInt8)} {allowed : Inspection → Prop} {round : Ifs × τ → Traced Inspection (Iteration (Ifs × τ) τ)}
  {step : List UInt8 → τ → Iteration τ τ} {ifs : Ifs}

/-- A loop whose rounds do something with each line that gets into the array, and end where there is none. -/
structure TakesLines (all : List (List UInt8)) (allowed : Inspection → Prop)
    (round : Ifs × τ → Traced Inspection (Iteration (Ifs × τ) τ)) (step : List UInt8 → τ → Iteration τ τ) : Prop where
  ends : ∀ ifs value, ifs.eof = false → (getline ifs).eof = true ∨ (getline ifs).fail = true →
    Traced.Yields allowed (round (ifs, value)) (.stop value)
  does : ∀ ifs value line rest, ifs.eof = false → ifs.line.length = 4096 → ifs.unread = line ++ newline :: rest →
    newline ∉ line → line.length ≤ 4095 → line ∈ all →
    Traced.Yields allowed (round (ifs, value)) (behind ifs (step line value))

/-- The loop over what is left of the file. -/
theorem TakesLines.loop_yields (takes : TakesLines all allowed round step) (among : storable ifs.unread ⊆ all)
    (more : ifs.eof = false) (size : ifs.line.length = 4096) (enough : ifs.unread.length < fuel) :
    Traced.Yields allowed (.loop round fuel (ifs, value)) (foldLines step (storable ifs.unread) value) := by
  induction fuel generalizing ifs value with
  | zero => contradiction
  | succ fuel ih =>
      rw [Traced.loop]
      cases first : linesOf ifs.unread with
      | nil =>
          rw [storable_nil first]
          have bad := getline_unterminated (linesOf_nil first)
          exact Traced.yields_bind (takes.ends ifs value more bad) Traced.yields_pure
      | cons line lines =>
          obtain ⟨unbroken, rest, unread, rfl⟩ := linesOf_cons first
          rcases Nat.lt_or_ge 4095 line.length with long | short
          · rw [storable_long first long]
            have bad := getline_long unread unbroken size long
            exact Traced.yields_bind (takes.ends ifs value more bad) Traced.yields_pure
          · have later := getline_stores unread unbroken size short
            have cons := storable_cons first short
            rw [cons] at among ⊢
            have here := takes.does ifs value line rest more size unread unbroken short (among List.mem_cons_self)
            rw [foldLines]
            cases stepped : step line value with
            | stop value =>
                rw [stepped] at here
                exact Traced.yields_bind here Traced.yields_pure
            | next value =>
                rw [stepped] at here
                have left : (getline ifs).unread = rest := by rw [later]
                have others : Traced.Yields allowed (.loop round fuel (getline ifs, value))
                    (foldLines step (storable (getline ifs).unread) value) := by
                  refine ih ?_ ?_ ?_ ?_
                  · rw [left]
                    exact List.subset_of_cons_subset among
                  · rw [later]
                  · simp only [later, stored, List.length_append, List.length_cons, List.length_drop, size]
                    omega
                  · rw [unread, List.length_append, List.length_cons] at enough
                    rw [left]
                    omega
                rw [left] at others
                exact Traced.yields_bind here others

end Loop

/-- A line with zero bytes in it is a string and something behind it. -/
theorem string_of_line (line rest : List UInt8) :
    ∃ junk, line ++ 0 :: rest = stored (CString.contents line) junk := by
  have split : CString.contents line ++ line.dropWhile (fun byte => byte ≠ 0) = line := List.takeWhile_append_dropWhile
  cases behind : line.dropWhile (fun byte => byte ≠ 0) with
  | nil =>
      rw [behind, List.append_nil] at split
      exact ⟨rest, by rw [stored, split]⟩
  | cons byte junk =>
      have some : line.dropWhile (fun byte => byte ≠ 0) ≠ [] := by
        rw [behind]
        exact List.cons_ne_nil _ _
      have zero : byte = 0 := by
        have stopped := List.head_dropWhile_not (fun byte : UInt8 => byte ≠ 0) some
        simp only [behind, List.head_cons] at stopped
        exact not_not.mp (of_decide_eq_false stopped)
      refine ⟨junk ++ 0 :: rest, ?_⟩
      rw [stored, ← zero, ← List.cons_append, ← List.append_assoc, ← behind, split, zero]

/-- A place of the string that the array held, or its zero byte. -/
def InsideString (inspection : Inspection) : Prop :=
  ∃ string rest, 0 ∉ string ∧ inspection.line = stored string rest ∧ inspection.place ≤ string.length

theorem contents_free : 0 ∉ CString.contents line := by
  intro member
  have kept := List.mem_takeWhile_imp member
  simp at kept

theorem foldLines_map {step : List UInt8 → τ → Iteration τ τ} :
    foldLines step (lines.map CString.contents) value = foldLines (fun line => step (CString.contents line)) lines value := by
  induction lines generalizing value with
  | nil => rfl
  | cons line lines ih =>
      rw [List.map_cons, foldLines, foldLines]
      cases step (CString.contents line) value with
      | next value => exact ih
      | stop value => rfl

variable {body : List UInt8 → τ → Traced Nat (Iteration τ τ)} {step : List UInt8 → τ → Iteration τ τ}

theorem lineRound_takes {all : List (List UInt8)}
    (does : ∀ line junk value, 0 ∉ line →
      Traced.Yields (fun place => place ≤ line.length) (body (stored line junk) value) (step line value)) :
    TakesLines all InsideString (lineRound body) fun line => step (CString.contents line) where
  ends := by
    intro ifs value more bad
    rw [lineRound, more, if_neg Bool.false_ne_true, if_pos bad]
    exact Traced.yields_pure
  does := by
    intro ifs value line rest more size unread unbroken short _
    have later := getline_stores unread unbroken size short
    obtain ⟨junk, same⟩ := string_of_line line (ifs.line.drop (line.length + 1))
    have array : (getline ifs).line = stored (CString.contents line) junk := by
      rw [later]
      exact same
    have good : ¬ ((getline ifs).eof = true ∨ (getline ifs).fail = true) := by
      simp only [later, Bool.false_eq_true, or_self, not_false_eq_true]
    have done : Traced.Yields InsideString
        (.renote (fun place => { line := (getline ifs).line, place := place }) (body (getline ifs).line value))
        (step (CString.contents line) value) := by
      refine Traced.yields_renote (array ▸ does _ junk value contents_free) fun place inside => ?_
      exact ⟨_, junk, contents_free, array, inside⟩
    rw [lineRound, more, if_neg Bool.false_ne_true, if_neg good]
    refine Traced.yields_bind done ?_
    cases step (CString.contents line) value with
    | next value => exact Traced.yields_pure
    | stop value => exact Traced.yields_pure

/-- What is done with strings is done with a file. -/
theorem readLines_yields
    (does : ∀ line junk value, 0 ∉ line →
      Traced.Yields (fun place => place ≤ line.length) (body (stored line junk) value) (step line value))
    (text : List UInt8) (value : τ) :
    Traced.Yields InsideString (readLines body (some text) value) (foldLines step (readable text) value) := by
  rw [readable, foldLines_map]
  exact (lineRound_takes does).loop_yields (List.Subset.refl _) rfl (List.length_replicate ..) (Nat.lt_succ_self _)

end Dwadelib.Hardware
