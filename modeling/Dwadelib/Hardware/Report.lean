import Dwadelib.Cells
import Dwadelib.Hardware.Reply

namespace Dwadelib.Hardware

/-! # Pointers into a line

The functions that look for a serial number move pointers over a line that `getline` has stored. They stay in the
line and its zero byte.
-/

variable {line rest text : List UInt8} {first last place : Nat}

/-- A line in the array, with its zero byte. -/
def stored (text rest : List UInt8) : List UInt8 := text ++ 0 :: rest

theorem stored_getElem? (inside : place < text.length) : (stored text rest)[place]? = some text[place] := by
  rw [stored, List.getElem?_append_left inside, List.getElem?_eq_getElem inside]

theorem slice_stored (fits : last ≤ text.length) : slice (stored text rest) first last = slice text first last := by
  rw [slice, slice, stored, List.take_append_of_le_length fits]

theorem stringAt_yields (free : 0 ∉ text) (fits : first ≤ text.length) :
    Traced.Yields (fun place => place ≤ text.length) (stringAt (stored text rest) first) (text.drop first) := by
  have string : (stored text rest).drop first = text.drop first ++ 0 :: rest := List.drop_append_of_le_length fits
  have clean : 0 ∉ text.drop first := fun member => free (List.mem_of_mem_drop member)
  rw [stringAt, string, CString.strlen_terminated clean, CString.contents_terminated clean]
  refine ⟨rfl, ?_⟩
  intro place member
  have bounds := (List.mem_range'_1.mp member).2
  rw [List.length_drop] at bounds
  omega

theorem look_stored (inside : place < text.length) :
    Traced.Yields (fun place => place ≤ text.length) (.peek id (stored text rest) place) text[place] := by
  rw [Traced.peek, stored_getElem? inside]
  exact ⟨rfl, Traced.notes_single rfl (Nat.le_of_lt inside)⟩

theorem look_end : Traced.Yields (fun place => place ≤ text.length) (.peek id (stored text rest) text.length) 0 := by
  rw [Traced.peek, stored, Cells.getElem?_middle]
  exact ⟨rfl, Traced.notes_single rfl (Nat.le_refl _)⟩

/-- Only whitespace is before the place. -/
structure Skipping (text : List UInt8) (first place : Nat) : Prop where
  same : (text.drop place).dropWhile isspace = (text.drop first).dropWhile isspace
  inside : place ≤ text.length

theorem skipRound_yields (rest : List UInt8) (skipping : Skipping text first place) :
    (∃ result, Traced.Yields (fun place => place ≤ text.length) (skipRound (stored text rest) place) (.stop result) ∧
      text.drop result = (text.drop first).dropWhile isspace ∧ result ≤ text.length) ∨
    ∃ after, Traced.Yields (fun place => place ≤ text.length) (skipRound (stored text rest) place) (.next after) ∧
      Skipping text first after ∧ text.length - after < text.length - place := by
  obtain ⟨same, upper⟩ := skipping
  rcases Nat.lt_or_eq_of_le upper with inside | rfl
  · have here : text.drop place = text[place] :: text.drop (place + 1) := List.drop_eq_getElem_cons inside
    by_cases space : isspace text[place]
    · right
      refine ⟨place + 1, Traced.yields_bind (look_stored inside) ?_, ⟨?_, inside⟩, by omega⟩
      · rw [if_pos space]
        exact Traced.yields_pure
      · rw [← same, here, List.dropWhile_cons_of_pos space]
    · left
      refine ⟨place, Traced.yields_bind (look_stored inside) ?_, ?_, upper⟩
      · rw [if_neg space]
        exact Traced.yields_pure
      · rw [← same, here, List.dropWhile_cons_of_neg space]
  · left
    refine ⟨text.length, Traced.yields_bind look_end Traced.yields_pure, ?_, Nat.le_refl _⟩
    rw [← same, List.drop_length]
    rfl

theorem skip_yields (begun : first ≤ text.length) :
    ∃ serialS, Traced.Yields (fun place => place ≤ text.length)
      (.loop (skipRound (stored text rest)) ((stored text rest).length + 1) first) serialS ∧
        text.drop serialS = (text.drop first).dropWhile isspace ∧ serialS ≤ text.length := by
  refine Traced.yields_loop (fun place => text.length - place) (fun _ skipping => skipRound_yields rest skipping)
    ⟨rfl, begun⟩ ?_
  rw [stored, List.length_append]
  omega

/-- Only whitespace is between the place and the end. -/
structure Cutting (text : List UInt8) (first last place : Nat) : Prop where
  same : (slice text first place).rdropWhile isspace = (slice text first last).rdropWhile isspace
  inside : place ≤ text.length

theorem cutRound_yields (rest : List UInt8) (cutting : Cutting text first last place) :
    (∃ result, Traced.Yields (fun place => place ≤ text.length) (cutRound (stored text rest) first place) (.stop result) ∧
      slice text first result = (slice text first last).rdropWhile isspace ∧ result ≤ text.length) ∨
    ∃ after, Traced.Yields (fun place => place ≤ text.length) (cutRound (stored text rest) first place) (.next after) ∧
      Cutting text first last after ∧ after < place := by
  obtain ⟨same, upper⟩ := cutting
  by_cases some : place > first
  · have inside : place - 1 < text.length := by omega
    have concat : slice text first place = slice text first (place - 1) ++ [text[place - 1]] := slice_concat some upper
    rw [cutRound, if_pos some]
    by_cases space : isspace text[place - 1]
    · right
      refine ⟨place - 1, Traced.yields_bind (look_stored inside) ?_, ⟨?_, Nat.le_of_lt inside⟩, by omega⟩
      · rw [if_pos space]
        exact Traced.yields_pure
      · rw [← same, concat, List.rdropWhile_concat_pos _ _ _ space]
    · left
      refine ⟨place, Traced.yields_bind (look_stored inside) ?_, ?_, upper⟩
      · rw [if_neg space]
        exact Traced.yields_pure
      · rw [← same, concat, List.rdropWhile_concat_neg _ _ _ space]
  · left
    refine ⟨place, ?_, ?_, upper⟩
    · rw [cutRound, if_neg some]
      exact Traced.yields_pure
    · rw [← same, slice_empty (Nat.le_of_not_lt some)]
      rfl

theorem cut_yields (begun : last ≤ text.length) :
    ∃ serialE, Traced.Yields (fun place => place ≤ text.length)
      (.loop (cutRound (stored text rest) first) (last + 1) last) serialE ∧
        slice text first serialE = (slice text first last).rdropWhile isspace ∧ serialE ≤ text.length :=
  Traced.yields_loop (fun place => place) (fun _ cutting => cutRound_yields rest cutting) ⟨rfl, begun⟩
    (Nat.lt_succ_self last)

theorem copy_stored (some : first < last) (fits : last ≤ line.length) :
    Traced.Yields (fun place => place ≤ line.length) (copy (stored line rest) first (last - first))
      (slice line first last) := by
  have room : last ≤ (stored line rest).length := by
    rw [stored, List.length_append]
    omega
  rw [← slice_stored fits]
  exact copy_between some room fun place lower upper => by omega

/-- The place is one of the line or of its zero byte. -/
def InsideLine (lines : List (List UInt8)) (inspection : Inspection) : Prop :=
  ∃ line ∈ lines, line ++ [0] <+: inspection.line ∧ inspection.place ≤ line.length

end Dwadelib.Hardware
