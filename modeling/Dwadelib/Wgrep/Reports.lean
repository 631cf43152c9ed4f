import Dwadelib.Wgrep.Lines
import Dwadelib.Wgrep.Sunday.Search

namespace Dwadelib.Wgrep

/-! # The reported lines -/

variable {text line rest pattern : List UInt8} {lines pieces others : List (List UInt8)} {number count i : Nat}
  {report : Report} {printed : List Report}

/-- The lines with the pattern in them; the first line has the given number. -/
def matching (pattern : List UInt8) (first : Nat) (lines : List (List UInt8)) : List Report :=
  (lines.zipIdx first).filterMap fun (line, number) =>
    if pattern <:+: line then some { number := number, line := line } else none

theorem matching_nil : matching pattern number [] = [] := rfl

theorem matching_hit (inside : pattern <:+: line) :
    matching pattern number (line :: lines) =
      { number := number, line := line } :: matching pattern (number + 1) lines := by
  simp only [matching, List.zipIdx_cons, List.filterMap_cons, if_pos inside]

theorem matching_miss (outside : ¬ pattern <:+: line) :
    matching pattern number (line :: lines) = matching pattern (number + 1) lines := by
  simp only [matching, List.zipIdx_cons, List.filterMap_cons, if_neg outside]

theorem matching_append : matching pattern number (pieces ++ others) =
    matching pattern number pieces ++ matching pattern (number + pieces.length) others := by
  simp only [matching, List.zipIdx_append, List.filterMap_append]

theorem matching_cons : matching pattern number (line :: lines) =
    matching pattern number [line] ++ matching pattern (number + 1) lines := by
  rw [← List.singleton_append, matching_append, List.length_singleton]

theorem mem_matching : report ∈ matching pattern number lines ↔
    number ≤ report.number ∧ lines[report.number - number]? = some report.line ∧ pattern <:+: report.line := by
  simp only [matching, List.mem_filterMap, Prod.exists, List.mem_zipIdx_iff_le_and_getElem?_sub,
    Option.ite_none_right_eq_some, Option.some.injEq]
  constructor
  · intro given
    obtain ⟨line, index, ⟨behind, read⟩, inside, rfl⟩ := given
    exact ⟨behind, read, inside⟩
  · intro given
    obtain ⟨behind, read, inside⟩ := given
    exact ⟨report.line, report.number, ⟨behind, read⟩, inside, rfl⟩

theorem matching_none (none : ∀ line ∈ lines, ¬ pattern <:+: line) : matching pattern number lines = [] := by
  rw [List.eq_nil_iff_forall_not_mem]
  intro report member
  obtain ⟨-, read, inside⟩ := mem_matching.mp member
  exact none _ (List.mem_of_getElem? read) inside

/-- All of the array can be read, and all of it is text or zero. -/
theorem line_readable (small : SevenBit text) (bounded : i ≤ text.length + count) :
    ∃ byte, (text ++ 0 :: List.replicate count 0)[i]? = some byte ∧ byte.toNat < 128 := by
  by_cases inside : i < text.length
  · refine ⟨text[i], ?_, small _ (List.getElem_mem inside)⟩
    rw [List.getElem?_append_left inside, List.getElem?_eq_getElem inside]
  · refine ⟨0, ?_, by decide⟩
    rw [List.getElem?_append_right (by omega), ← List.replicate_succ, List.getElem?_replicate, if_pos (by omega)]

theorem round_read (freeText : 0 ∉ text) (small : SevenBit text) (nonempty : text ≠ []) (given : pattern ≠ [])
    (free : 0 ∉ pattern) (seven : SevenBit pattern) (bounded : pattern.length ≤ 1023) :
    round (pattern ++ [0]) { i := i, unread := text, printed := printed } =
      if i + 1 < 2 ^ 31 then
        .returned (.next {
          i := i + 1,
          unread := text.drop (upToNewline 1023 text).length,
          printed := printed ++ matching pattern i [upToNewline 1023 text] })
      else .undefined := by
  have freeRead : 0 ∉ upToNewline 1023 text := fun member => freeText (upToNewline_within.subset member)
  have smallRead : SevenBit (upToNewline 1023 text) := fun byte member =>
    small byte (upToNewline_within.subset member)
  have short : (upToNewline 1023 text).length ≤ 1023 := length_upToNewline_le
  have begun : upToNewline 1023 text ≠ [] := List.length_pos_iff.mp (length_upToNewline_pos nonempty)
  have table : ∃ step, getStep (pattern ++ [0]) = some step ∧ Steps pattern (pattern.length + 1 : Nat) step :=
    getStep_steps free seven (by omega)
  obtain ⟨step, filled, steps⟩ := table
  have found : ∃ ret, sundaySearch (upToNewline 1023 text ++ 0 :: List.replicate
      (1024 - ((upToNewline 1023 text).length + 1)) 0) (pattern ++ [0]) step = .returned (some ret) ∧
        FirstOccurrence pattern (upToNewline 1023 text) ret :=
    sundaySearch_first free given smallRead (by omega) (by omega) (line_readable smallRead (by omega)) freeRead begun steps
  obtain ⟨ret, returned, first⟩ := found
  have reported : (if ret ≠ -1 then printed ++ [{ number := i, line := upToNewline 1023 text }] else printed) =
      printed ++ matching pattern i [upToNewline 1023 text] := by
    by_cases inside : pattern <:+: upToNewline 1023 text
    · rw [if_pos (first.found_iff.mpr inside), matching_hit inside, matching_nil]
    · rw [if_neg (first.found_iff.not.mpr inside), matching_miss inside, matching_nil, List.append_nil]
  simp only [round, fgets_some nonempty, filled, returned, Outcome.ofOption_some, Outcome.returned_bind,
    CString.contents_terminated freeRead, reported, Outcome.pure_eq]

theorem loop_reports (freeText : 0 ∉ text) (small : SevenBit text) (given : pattern ≠ []) (free : 0 ∉ pattern)
    (seven : SevenBit pattern) (bounded : pattern.length ≤ 1023) (counts : i < 2 ^ 31) {fuel : Nat}
    (enough : text.length < fuel) :
    whileLoop (round (pattern ++ [0])) fuel { i := i, unread := text, printed := printed } =
      if i + (reads text).length < 2 ^ 31 then .returned (printed ++ matching pattern i (reads text))
      else .undefined := by
  induction fuel generalizing text i printed with
  | zero => contradiction
  | succ fuel ih =>
      by_cases nonempty : text = []
      · subst nonempty
        have ended : round (pattern ++ [0]) { i := i, unread := [], printed := printed } =
          .returned (.stop printed) := rfl
        rw [whileLoop_stop ended, reads_nil, matching_nil, List.append_nil, List.length_nil, Nat.add_zero,
          if_pos counts]
      · have iterated : round (pattern ++ [0]) { i := i, unread := text, printed := printed } = _ :=
          round_read freeText small nonempty given free seven bounded
        have positive : 0 < (upToNewline 1023 text).length := length_upToNewline_pos nonempty
        have length := List.length_pos_iff.mpr nonempty
        have shorter : (text.drop (upToNewline 1023 text).length).length < fuel := by
          rw [List.length_drop]
          omega
        rw [reads_cons nonempty, List.length_cons, matching_cons]
        by_cases next : i + 1 < 2 ^ 31
        · rw [if_pos next] at iterated
          rw [whileLoop_next iterated, ih (fun member => freeText (List.mem_of_mem_drop member))
            (fun byte member => small byte (List.mem_of_mem_drop member)) next shorter]
          rw [← List.append_assoc, Nat.add_assoc, Nat.add_comm 1]
        · rw [if_neg next] at iterated
          rw [whileLoop_undefined iterated, if_neg (by omega)]

/-- Each line that is not behind the last matching one is read at once. -/
def ShortUpToMatch (pattern : List UInt8) : List (List UInt8) → Prop
  | [] => True
  | line :: lines =>
      ((∃ hit ∈ line :: lines, pattern <:+: hit) → line.length ≤ 1023) ∧ ShortUpToMatch pattern lines

instance shortUpToMatchDecidable : (lines : List (List UInt8)) → Decidable (ShortUpToMatch pattern lines)
  | [] => isTrue trivial
  | line :: lines =>
      have := shortUpToMatchDecidable lines
      inferInstanceAs (Decidable
        (((∃ hit ∈ line :: lines, pattern <:+: hit) → line.length ≤ 1023) ∧ ShortUpToMatch pattern lines))

theorem shortUpToMatch_none (none : ∀ line ∈ lines, ¬ pattern <:+: line) : ShortUpToMatch pattern lines := by
  induction lines with
  | nil => trivial
  | cons line lines ih =>
      constructor
      · intro given
        obtain ⟨hit, member, inside⟩ := given
        exact absurd inside (none hit member)
      · exact ih fun other member => none other (List.mem_cons_of_mem _ member)

theorem mem_reads {piece : List UInt8} (member : piece ∈ reads text) :
    piece.length ≤ 1023 ∧ ∃ line ∈ linesOf text, piece <:+: line := by
  induction text using lines_induction with
  | nil =>
      rw [reads_nil] at member
      contradiction
  | line line rest isLine ih =>
      obtain ⟨pieces, read, -, inside⟩ := reads_line isLine
      rw [read] at member
      rw [linesOf_line isLine]
      rcases List.mem_append.mp member with here | later
      · obtain ⟨within, bounded⟩ := inside piece here
        exact ⟨bounded, line, List.mem_cons_self, within⟩
      · obtain ⟨bounded, other, listed, within⟩ := ih later
        exact ⟨bounded, other, List.mem_cons_of_mem _ listed, within⟩

theorem matching_reads_none (none : ∀ line ∈ linesOf text, ¬ pattern <:+: line) :
    matching pattern i (reads text) = [] := by
  refine matching_none fun piece member inside => ?_
  obtain ⟨-, line, listed, within⟩ := mem_reads member
  exact none line listed (inside.trans within)

/-- What is read of a line without the pattern is counted and not reported. -/
theorem matching_reads_miss (isLine : IsLine rest line) (outside : ¬ pattern <:+: line) :
    matching pattern i (reads (line ++ rest)) = matching pattern (i + readsFor line) (reads rest) := by
  obtain ⟨pieces, read, counted, inside⟩ := reads_line isLine
  have missed : matching pattern i pieces = [] := by
    refine matching_none fun piece member within => ?_
    exact outside (within.trans (inside piece member).1)
  rw [read, matching_append, missed, List.nil_append, counted]

/-- The reads fall behind the lines, so the numbers do not get smaller. -/
theorem number_of_reads (member : report ∈ matching pattern i (reads text)) :
    i + (linesOf text).findIdx (fun line => pattern <:+: line) ≤ report.number := by
  induction text using lines_induction generalizing i with
  | nil =>
      rw [reads_nil] at member
      contradiction
  | line line rest isLine ih =>
      rw [linesOf_line isLine, List.findIdx_cons]
      by_cases inside : pattern <:+: line
      · rw [decide_eq_true inside, cond_true]
        exact (mem_matching.mp member).1
      · rw [matching_reads_miss isLine inside] at member
        have later := ih member
        have positive := List.length_pos_iff.mpr isLine.nonempty
        rw [decide_eq_false inside, cond_false]
        unfold readsFor at later
        omega

theorem exists_first (some : ∃ hit ∈ lines, pattern <:+: hit) :
    ∃ report ∈ matching pattern i lines, report.number = i + lines.findIdx (fun line => pattern <:+: line) := by
  have found : ∃ hit ∈ lines, decide (pattern <:+: hit) = true := by
    obtain ⟨hit, member, inside⟩ := some
    exact ⟨hit, member, decide_eq_true inside⟩
  have shorter := List.findIdx_lt_length_of_exists found
  have first := List.findIdx_getElem (w := shorter)
  refine ⟨{ number := _, line := lines[lines.findIdx fun line => pattern <:+: line] }, mem_matching.mpr ⟨?_, ?_, ?_⟩, rfl⟩
  · exact Nat.le_add_right i _
  · rw [Nat.add_sub_cancel_left, List.getElem?_eq_getElem shorter]
  · exact of_decide_eq_true first

/-- The numbers of the lines after a line that takes several reads are too large. -/
theorem matching_reads_long (isLine : IsLine rest line) (long : 1023 < line.length)
    (some : ∃ hit ∈ line :: linesOf rest, pattern <:+: hit) :
    matching pattern i (reads (line ++ rest)) ≠ matching pattern i (line :: linesOf rest) := by
  intro same
  by_cases inside : pattern <:+: line
  · -- the line itself is longer than what is read at once
    rw [matching_hit inside] at same
    have member : { number := i, line := line } ∈ matching pattern i (reads (line ++ rest)) := by
      rw [same]
      exact List.mem_cons_self
    obtain ⟨-, read, -⟩ := mem_matching.mp member
    obtain ⟨bounded, -⟩ := mem_reads (List.mem_of_getElem? read)
    exact absurd bounded (Nat.not_le_of_lt long)
  · have later : ∃ hit ∈ linesOf rest, pattern <:+: hit := by
      obtain ⟨hit, member, within⟩ := some
      rcases List.mem_cons.mp member with rfl | behind
      · contradiction
      · exact ⟨hit, behind, within⟩
    rw [matching_reads_miss isLine inside, matching_miss inside] at same
    obtain ⟨report, member, number⟩ := exists_first (i := i + 1) later
    rw [← same] at member
    have behind := number_of_reads member
    unfold readsFor at behind
    omega

theorem matching_reads_iff :
    matching pattern i (reads text) = matching pattern i (linesOf text) ↔ ShortUpToMatch pattern (linesOf text) := by
  induction text using lines_induction generalizing i with
  | nil =>
      rw [reads_nil]
      exact iff_of_true rfl trivial
  | line line rest isLine ih =>
      rw [linesOf_line isLine]
      by_cases some : ∃ hit ∈ line :: linesOf rest, pattern <:+: hit
      · by_cases short : line.length ≤ 1023
        · have here : ∀ others, matching pattern i (line :: others) =
              matching pattern i [line] ++ matching pattern (i + 1) others := fun others => matching_cons
          have tail : matching pattern i (reads (line ++ rest)) = matching pattern i (line :: linesOf rest) ↔
              matching pattern (i + 1) (reads rest) = matching pattern (i + 1) (linesOf rest) := by
            rw [reads_short isLine short, here (reads rest), here (linesOf rest), List.append_cancel_left_eq]
          rw [tail, ih, ShortUpToMatch]
          exact (and_iff_right fun _ => short).symm
        · refine iff_of_false (matching_reads_long isLine (Nat.lt_of_not_le short) some) ?_
          intro given
          obtain ⟨read, -⟩ := given
          exact short (read some)
      · have none : ∀ other ∈ linesOf (line ++ rest), ¬ pattern <:+: other := by
          rw [linesOf_line isLine]
          exact fun other member inside => some ⟨other, member, inside⟩
        have missed : matching pattern i (linesOf (line ++ rest)) = [] := matching_none none
        have unread : matching pattern i (reads (line ++ rest)) = [] := matching_reads_none none
        rw [linesOf_line isLine] at missed none
        exact iff_of_true (unread.trans missed.symm) (shortUpToMatch_none none)

/-- A pattern with a negative character writes outside of the table. -/
theorem wgrep_negative (free : 0 ∉ pattern) (bounded : pattern.length ≤ 1023) (negative : ¬ SevenBit pattern)
    (nonempty : text ≠ []) :
    wgrep pattern text = .undefined := by
  have unfilled : getStep (pattern ++ [0]) = none := by
    rw [← Option.not_isSome_iff_eq_none, Option.isSome_iff_exists]
    intro given
    obtain ⟨step, filled⟩ := given
    exact negative (sevenBit_of_getStep free (by omega) filled)
  refine whileLoop_undefined ?_
  simp only [round, fgets_some nonempty, unfilled, Outcome.ofOption_none, Outcome.undefined_bind]

theorem wgrep_reports (freeText : 0 ∉ text) (small : SevenBit text) (given : pattern ≠ []) (free : 0 ∉ pattern)
    (seven : SevenBit pattern) (bounded : pattern.length ≤ 1023) :
    wgrep pattern text =
      if ((linesOf text).map readsFor).sum + 1 < 2 ^ 31 then .returned (matching pattern 1 (reads text))
      else .undefined := by
  rw [wgrep, loop_reports freeText small given free seven bounded (by decide) (Nat.lt_succ_self _), length_reads,
    List.nil_append, Nat.add_comm 1]

/-- The matching lines are printed with their numbers exactly when no line up to the last of them is
longer than 1023 bytes, the calls of `fgets` can be counted and no character of the pattern is
negative. -/
theorem wgrep_prints_iff_short (freeText : 0 ∉ text) (small : SevenBit text) (given : pattern ≠ [])
    (free : 0 ∉ pattern) (bounded : pattern.length ≤ 1023) :
    wgrep pattern text = .returned (matching pattern 1 (linesOf text)) ↔
      (text = [] ∨ SevenBit pattern) ∧ ((linesOf text).map readsFor).sum + 1 < 2 ^ 31 ∧
        ShortUpToMatch pattern (linesOf text) := by
  by_cases empty : text = []
  · subst empty
    exact iff_of_true rfl ⟨Or.inl rfl, by decide, trivial⟩
  · by_cases seven : SevenBit pattern
    · rw [wgrep_reports freeText small given free seven bounded]
      by_cases counts : ((linesOf text).map readsFor).sum + 1 < 2 ^ 31
      · rw [if_pos counts, Outcome.returned.injEq, matching_reads_iff]
        exact ⟨fun short => ⟨Or.inr seven, counts, short⟩, fun condition => condition.2.2⟩
      · rw [if_neg counts]
        refine iff_of_false (by simp) ?_
        intro given
        obtain ⟨-, bound, -⟩ := given
        exact counts bound
    · rw [wgrep_negative free bounded seven empty]
      refine iff_of_false (by simp) ?_
      intro given
      obtain ⟨positive, -⟩ := given
      exact positive.elim empty seven

theorem wgrep_prints_two_lines : wgrep [98] [97, 98, 10, 97, 10, 98] = .returned
    [{ number := 1, line := [97, 98, 10] }, { number := 3, line := [98] }] :=
  (wgrep_prints_iff_short (by decide +kernel) (by decide +kernel) (by decide) (by decide +kernel)
    (by decide)).mpr ⟨Or.inr (by decide +kernel), by decide +kernel, by decide +kernel⟩

/-- A line of 1025 bytes counts as two. -/
theorem line_behind_long_misnumbered :
    wgrep [98] (List.replicate 1024 97 ++ [10] ++ [98, 10]) = .returned [{ number := 3, line := [98, 10] }] ∧
      matching [98] 1 (linesOf (List.replicate 1024 97 ++ [10] ++ [98, 10])) =
        [{ number := 2, line := [98, 10] }] := by
  have isLine : IsLine [98, 10] (List.replicate 1024 97 ++ [10]) := .ended fun member =>
    absurd (List.eq_of_mem_replicate member) (by decide)
  have letters : ∀ byte ∈ List.replicate 1024 (97 : UInt8) ++ [10], byte = 97 ∨ byte = 10 := by
    intro byte member
    rcases List.mem_append.mp member with long | ending
    · exact Or.inl (List.eq_of_mem_replicate long)
    · exact Or.inr (List.mem_singleton.mp ending)
  have outside : ¬ ([98] : List UInt8) <:+: List.replicate 1024 97 ++ [10] := fun inside =>
    absurd (letters 98 (inside.subset List.mem_cons_self)) (by decide)
  have last : IsLine [] ([98] ++ [10]) := .ended (by decide)
  have length : (List.replicate 1024 (97 : UInt8) ++ [10]).length = 1025 := by
    rw [List.length_append, List.length_replicate]
    rfl
  have lines : linesOf (List.replicate 1024 97 ++ [10] ++ [98, 10]) = [List.replicate 1024 97 ++ [10], [98, 10]] :=
    linesOf_line isLine
  have read : matching [98] 3 (reads [98, 10]) = [{ number := 3, line := [98, 10] }] := by
    have short := reads_short last (by decide)
    rw [List.append_nil, reads_nil] at short
    rw [show ([98, 10] : List UInt8) = [98] ++ [10] from rfl, short]
    decide
  have free : 0 ∉ List.replicate 1024 (97 : UInt8) ++ [10] ++ [98, 10] := by
    intro member
    rcases List.mem_append.mp member with long | short
    · exact absurd (letters 0 long) (by decide)
    · exact absurd short (by decide)
  have small : SevenBit (List.replicate 1024 97 ++ [10] ++ [98, 10]) := by
    intro byte member
    rcases List.mem_append.mp member with long | short
    · rcases letters byte long with rfl | rfl <;> decide
    · exact (show SevenBit [98, 10] by decide +kernel) byte short
  constructor
  · rw [wgrep_reports free small (by decide) (by decide +kernel) (by decide +kernel) (by decide), lines, if_pos,
      matching_reads_miss isLine outside, readsFor, length]
    · exact congrArg Outcome.returned read
    · simp only [List.map_cons, List.map_nil, readsFor, length]
      decide
  · rw [lines, matching_miss outside]
    decide

end Dwadelib.Wgrep
