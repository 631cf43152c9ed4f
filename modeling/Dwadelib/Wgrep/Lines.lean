import Dwadelib.Wgrep
import Mathlib.Data.List.Infix
import Mathlib.Tactic.Common

namespace Dwadelib.Wgrep

/-! # Lines and what is read at once

A line keeps its newline. One of more than 1023 bytes is read in pieces.
-/

variable {text line rest body : List UInt8} {room : Nat}

def linesOf : List UInt8 → List (List UInt8)
  | [] => []
  | byte :: text =>
      if byte = newline then [newline] :: linesOf text
      else
        match linesOf text with
        | [] => [[byte]]
        | line :: lines => (byte :: line) :: lines

theorem free_cons {byte : UInt8} : newline ∉ byte :: body ↔ byte ≠ newline ∧ newline ∉ body := by
  rw [List.mem_cons, not_or, ne_comm]

/-- A line before `rest`: its newline is its last byte, and only the last one may be without. -/
inductive IsLine (rest : List UInt8) : List UInt8 → Prop where
  | ended {body : List UInt8} (free : newline ∉ body) : IsLine rest (body ++ [newline])
  | last {body : List UInt8} (some : body ≠ []) (free : newline ∉ body) (all : rest = []) : IsLine rest body

theorem IsLine.cons {byte : UInt8} (isLine : IsLine rest line) (other : byte ≠ newline) :
    IsLine rest (byte :: line) := by
  cases isLine with
  | @ended body free =>
      rw [← List.cons_append]
      exact .ended (free_cons.mpr ⟨other, free⟩)
  | last some free all => exact .last (List.cons_ne_nil _ _) (free_cons.mpr ⟨other, free⟩) all

theorem IsLine.nonempty (isLine : IsLine rest line) : line ≠ [] := by
  cases isLine with
  | ended free => exact List.append_ne_nil_of_right_ne_nil _ (List.cons_ne_nil _ _)
  | last some free all => exact some

theorem IsLine.drop (isLine : IsLine rest line) (shorter : room < line.length) : IsLine rest (line.drop room) := by
  cases isLine with
  | @ended body free =>
      rw [List.length_append, List.length_singleton] at shorter
      rw [List.drop_append_of_le_length (by omega)]
      exact .ended fun member => free (List.mem_of_mem_drop member)
  | last some free all =>
      refine .last ?_ (fun member => free (List.mem_of_mem_drop member)) all
      rw [← List.length_pos_iff, List.length_drop]
      omega

theorem exists_line (nonempty : text ≠ []) : ∃ line rest, text = line ++ rest ∧ IsLine rest line := by
  induction text with
  | nil => contradiction
  | cons byte text ih =>
      by_cases ends : byte = newline
      · subst ends
        have isLine : IsLine text ([] ++ [newline]) := .ended List.not_mem_nil
        exact ⟨[newline], text, rfl, isLine⟩
      · by_cases last : text = []
        · subst last
          have free : newline ∉ [byte] := free_cons.mpr ⟨ends, List.not_mem_nil⟩
          exact ⟨[byte], [], rfl, .last (List.cons_ne_nil _ _) free rfl⟩
        · obtain ⟨line, rest, rfl, isLine⟩ := ih last
          exact ⟨byte :: line, rest, rfl, isLine.cons ends⟩

theorem linesOf_ended (free : newline ∉ body) :
    linesOf (body ++ newline :: rest) = (body ++ [newline]) :: linesOf rest := by
  induction body with
  | nil => rfl
  | cons byte body ih =>
      obtain ⟨apart, later⟩ := free_cons.mp free
      simp only [List.cons_append, linesOf, if_neg apart, ih later]

theorem linesOf_last (nonempty : body ≠ []) (free : newline ∉ body) : linesOf body = [body] := by
  induction body with
  | nil => contradiction
  | cons byte body ih =>
      obtain ⟨apart, later⟩ := free_cons.mp free
      by_cases ended : body = []
      · subst ended
        simp only [linesOf, if_neg apart]
      · simp only [linesOf, if_neg apart, ih ended later]

theorem linesOf_line (isLine : IsLine rest line) : linesOf (line ++ rest) = line :: linesOf rest := by
  cases isLine with
  | ended free =>
      rw [List.append_assoc, List.singleton_append]
      exact linesOf_ended free
  | last some free all =>
      subst all
      rw [List.append_nil]
      exact linesOf_last some free

/-- Text is empty or a line with text behind it. -/
theorem lines_induction {motive : List UInt8 → Prop} (nil : motive [])
    (line : ∀ line rest, IsLine rest line → motive rest → motive (line ++ rest)) (text : List UInt8) :
    motive text := by
  induction length : text.length using Nat.strong_induction_on generalizing text with
  | h length ih =>
      by_cases nonempty : text = []
      · subst nonempty
        exact nil
      · obtain ⟨first, rest, rfl, isLine⟩ := exists_line nonempty
        have positive := List.length_pos_iff.mpr isLine.nonempty
        rw [List.length_append] at length
        exact line first rest isLine (ih rest.length (by omega) rest rfl)

theorem upToNewline_ended (free : newline ∉ body) :
    upToNewline room (body ++ newline :: rest) = (body ++ [newline]).take room := by
  induction body generalizing room with
  | nil =>
      cases room with
      | zero => rfl
      | succ room => simp only [List.nil_append, upToNewline, if_true, List.take_succ_cons, List.take_nil]
  | cons byte body ih =>
      obtain ⟨apart, later⟩ := free_cons.mp free
      cases room with
      | zero => rfl
      | succ room => simp only [List.cons_append, upToNewline, if_neg apart, ih later, List.take_succ_cons]

theorem upToNewline_last (free : newline ∉ body) : upToNewline room body = body.take room := by
  induction body generalizing room with
  | nil =>
      cases room with
      | zero => rfl
      | succ room => rfl
  | cons byte body ih =>
      obtain ⟨apart, later⟩ := free_cons.mp free
      cases room with
      | zero => rfl
      | succ room => simp only [upToNewline, if_neg apart, ih later, List.take_succ_cons]

theorem upToNewline_line (isLine : IsLine rest line) : upToNewline room (line ++ rest) = line.take room := by
  cases isLine with
  | ended free =>
      rw [List.append_assoc, List.singleton_append]
      exact upToNewline_ended free
  | last some free all =>
      subst all
      rw [List.append_nil]
      exact upToNewline_last free

theorem length_upToNewline_le : (upToNewline room text).length ≤ room := by
  induction text generalizing room with
  | nil => cases room <;> exact Nat.zero_le _
  | cons byte text ih =>
      cases room with
      | zero => exact Nat.zero_le _
      | succ room =>
          rw [upToNewline]
          split
          · exact Nat.succ_le_succ (Nat.zero_le room)
          · exact Nat.succ_le_succ ih

theorem upToNewline_within : upToNewline room text <+: text := by
  induction text generalizing room with
  | nil => cases room <;> exact List.nil_prefix
  | cons byte text ih =>
      cases room with
      | zero => exact List.nil_prefix
      | succ room =>
          rw [upToNewline]
          split
          · exact List.cons_prefix_cons.mpr ⟨rfl, List.nil_prefix⟩
          · exact List.cons_prefix_cons.mpr ⟨rfl, ih⟩

theorem length_upToNewline_pos (nonempty : text ≠ []) : 0 < (upToNewline (room + 1) text).length := by
  cases text with
  | nil => contradiction
  | cons byte text =>
      rw [upToNewline]
      split <;> exact Nat.succ_pos _

theorem fgets_some (nonempty : text ≠ []) :
    fgets (List.replicate 1024 0) text = some
      (upToNewline 1023 text ++ 0 :: List.replicate (1024 - ((upToNewline 1023 text).length + 1)) 0,
        text.drop (upToNewline 1023 text).length) := by
  simp only [fgets, if_neg nonempty, List.length_replicate, List.drop_replicate]

/-- What the calls of `fgets` take until the end of the file. -/
def reads (text : List UInt8) : List (List UInt8) :=
  if _ : text = [] then []
  else upToNewline 1023 text :: reads (text.drop (upToNewline 1023 text).length)
termination_by text.length
decreasing_by
  have nonempty : text ≠ [] := by assumption
  have positive : 0 < (upToNewline 1023 text).length := length_upToNewline_pos nonempty
  have some := List.length_pos_iff.mpr nonempty
  rw [List.length_drop]
  omega

theorem reads_nil : reads [] = [] := by rw [reads, dif_pos rfl]

theorem reads_cons (nonempty : text ≠ []) :
    reads text = upToNewline 1023 text :: reads (text.drop (upToNewline 1023 text).length) := by
  rw [reads, dif_neg nonempty]

theorem reads_short (isLine : IsLine rest line) (short : line.length ≤ 1023) :
    reads (line ++ rest) = line :: reads rest := by
  rw [reads_cons (List.append_ne_nil_of_left_ne_nil isLine.nonempty rest), upToNewline_line isLine,
    List.take_of_length_le short, List.drop_left]

theorem reads_long (isLine : IsLine rest line) (long : 1023 < line.length) :
    reads (line ++ rest) = line.take 1023 :: reads (line.drop 1023 ++ rest) := by
  have taken : (line.take 1023).length = 1023 := by
    rw [List.length_take]
    omega
  rw [reads_cons (List.append_ne_nil_of_left_ne_nil isLine.nonempty rest), upToNewline_line isLine, taken,
    List.drop_append_of_le_length (Nat.le_of_lt long)]

/-- How often `fgets` is called for a line. -/
def readsFor (line : List UInt8) : Nat := (line.length + 1022) / 1023

theorem reads_line (isLine : IsLine rest line) :
    ∃ pieces, reads (line ++ rest) = pieces ++ reads rest ∧ pieces.length = readsFor line ∧
      ∀ piece ∈ pieces, piece <:+: line ∧ piece.length ≤ 1023 := by
  induction length : line.length using Nat.strong_induction_on generalizing line with
  | h length ih =>
      subst length
      by_cases short : line.length ≤ 1023
      · have positive := List.length_pos_iff.mpr isLine.nonempty
        refine ⟨[line], reads_short isLine short, ?_, ?_⟩
        · rw [List.length_singleton, readsFor]
          omega
        · intro piece member
          rw [List.mem_singleton.mp member]
          exact ⟨List.infix_rfl, short⟩
      · have long : 1023 < line.length := by omega
        have shorter : (line.drop 1023).length < line.length := by
          rw [List.length_drop]
          omega
        obtain ⟨pieces, read, count, inside⟩ := ih _ shorter (isLine.drop long) rfl
        refine ⟨line.take 1023 :: pieces, ?_, ?_, ?_⟩
        · rw [reads_long isLine long, read, List.cons_append]
        · rw [List.length_cons, count, readsFor, readsFor, List.length_drop]
          omega
        · intro piece member
          rcases List.mem_cons.mp member with rfl | later
          · refine ⟨(List.take_prefix 1023 line).isInfix, ?_⟩
            rw [List.length_take]
            omega
          · obtain ⟨within, bounded⟩ := inside piece later
            exact ⟨within.trans (List.drop_suffix 1023 line).isInfix, bounded⟩

theorem length_reads (text : List UInt8) : (reads text).length = ((linesOf text).map readsFor).sum := by
  induction text using lines_induction with
  | nil => rw [reads_nil]; rfl
  | line line rest isLine ih =>
      obtain ⟨pieces, read, count, -⟩ := reads_line isLine
      rw [read, List.length_append, count, ih, linesOf_line isLine, List.map_cons, List.sum_cons]

end Dwadelib.Wgrep
