import Dwadelib.Brackets
import Dwadelib.Grammar
import Dwadelib.Wgrep.Lines

namespace Dwadelib.Grammar

open Dwadelib.Bracket

/-! # Which files are found to be balanced -/

variable {text rest file : List UInt8} {byte : UInt8} {stack : Stack} {data : Option UInt8} {depth after : Nat}

inductive Kind where
  | round
  | square
  | curly
  | angle
  deriving DecidableEq, Repr

def bracketOf (byte : UInt8) : Option (Bracket Kind) :=
  if byte = 40 then some (opening .round)
  else if byte = 41 then some (closing .round)
  else if byte = 91 then some (opening .square)
  else if byte = 93 then some (closing .square)
  else if byte = 123 then some (opening .curly)
  else if byte = 125 then some (closing .curly)
  else if byte = 60 then some (opening .angle)
  else if byte = 62 then some (closing .angle)
  else none

def bracketsOf (text : List UInt8) : List (Bracket Kind) := text.filterMap bracketOf

/-- What the check is for: a verdict, and the good one exactly for properly nested brackets. -/
def CheckedRight (file : List UInt8) : Prop :=
  ∃ verdict, balanceSymbol file = .returned verdict ∧ (verdict = .codeIsOk ↔ Nested (bracketsOf file))

def flags : List Int := setBsFlag (List.replicate 256 0)

def flagOf : Option (Bracket Kind) → Int
  | none => 0
  | some (opening _) => 1
  | some (closing _) => 2

theorem flags_ascii : ∀ n, n < 128 → flags[n]? = some (flagOf (bracketOf (UInt8.ofNat n))) := by
  decide +kernel

theorem flags_byte (seven : byte.toNat < 128) : flags[byte.toNat]? = some (flagOf (bracketOf byte)) := by
  rw [flags_ascii byte.toNat seven, UInt8.ofNat_toNat]

/-- A stack with a number of brackets on it; the array has room for 16. -/
structure Holds (depth : Nat) (stack : Stack) : Prop where
  top : stack.top = depth - 1
  room : stack.array.length = 16
  fits : depth ≤ 16

theorem holds_create : Holds 0 stackCreate := ⟨rfl, rfl, Nat.zero_le _⟩

/-- A character that the table has an entry for, and no opening bracket on a full array. -/
structure Admitted (depth : Nat) (byte : UInt8) : Prop where
  ascii : byte.toNat < 128
  room : ∀ kind, bracketOf byte = some (opening kind) → depth < 16

section Check

variable (holds : Holds depth stack)
include holds

theorem Holds.isEmpty : stackIsEmpty stack = decide (depth = 0) := by
  have same : stack.top = emptyStack ↔ depth = 0 := by
    rw [holds.top, emptyStack]
    omega
  exact decide_eq_decide.mpr same

theorem Holds.isFull : stackIsFull stack = false := by
  have fits := holds.fits
  have other : stack.top ≠ minStackSize := by
    rw [holds.top, minStackSize]
    omega
  exact decide_eq_false other

theorem Holds.push (small : depth < 16) (byte : UInt8) :
    ∃ pushed, stackPush stack byte = some (0, pushed) ∧ Holds (depth + 1) pushed := by
  have top : stack.top + 1 = depth := by rw [holds.top]; omega
  have written : CInt.write stack.array depth (some byte) = some (stack.array.set depth (some byte)) :=
    CInt.write_natCast (by rw [holds.room]; exact small)
  refine ⟨{ stack with top := depth, array := stack.array.set depth (some byte) }, ?_, ?_⟩
  · simp only [stackPush, holds.isFull, Bool.false_eq_true, if_false, top, written, Option.bind_eq_bind, Option.bind_some]
  · exact ⟨by show (depth : Int) = (depth + 1 : Nat) - 1; omega, by rw [List.length_set, holds.room], small⟩

theorem Holds.push_full (full : depth = 16) : stackPush stack byte = none := by
  have top : stack.top + 1 = 16 := by rw [holds.top]; omega
  have outside : CInt.write stack.array 16 (some byte) = none := by
    rw [CInt.write, holds.room]
    rfl
  simp only [stackPush, holds.isFull, Bool.false_eq_true, if_false, top, outside, Option.bind_eq_bind, Option.bind_none]

theorem Holds.pop (positive : 0 < depth) (data : Option UInt8) :
    ∃ popped character, stackPop stack data = some (0, popped, character) ∧ Holds (depth - 1) popped := by
  have top : stack.top = (depth - 1 : Nat) := by rw [holds.top]; omega
  have fits := holds.fits
  have inside : depth - 1 < stack.array.length := by rw [holds.room]; omega
  have nonempty : stackIsEmpty stack = false := by
    rw [holds.isEmpty]
    exact decide_eq_false (by omega)
  refine ⟨{ stack with top := stack.top - 1 }, stack.array[depth - 1], ?_, ?_⟩
  · have read : CInt.read stack.array stack.top = some stack.array[depth - 1] := by
      rw [top, CInt.read_natCast, List.getElem?_eq_getElem inside]
    simp only [stackPop, nonempty, Bool.false_eq_true, if_false, read, Option.bind_eq_bind, Option.bind_some]
  · exact ⟨by show stack.top - 1 = (depth - 1 : Nat) - 1; omega, holds.room, by omega⟩

end Check

theorem depthAfter_singleton :
    depthAfter depth (bracketsOf [byte]) = match bracketOf byte with
      | none => some depth
      | some (opening _) => some (depth + 1)
      | some (closing _) => if depth = 0 then none else some (depth - 1) := by
  cases found : bracketOf byte with
  | none => simp [bracketsOf, found, depthAfter]
  | some bracket =>
      cases bracket with
      | opening kind => simp [bracketsOf, found, depthAfter]
      | closing kind => cases depth <;> simp [bracketsOf, found, depthAfter]

theorem check_refused (holds : Holds depth stack) (refused : ¬ Admitted depth byte) :
    check flags byte stack data = .undefined := by
  by_cases seven : byte.toNat < 128
  · have full : ∃ kind, bracketOf byte = some (opening kind) ∧ depth = 16 := by
      by_contra none
      refine refused ⟨seven, fun kind found => ?_⟩
      have fits := holds.fits
      have small : depth ≠ 16 := fun equal => none ⟨kind, found, equal⟩
      omega
    obtain ⟨kind, found, equal⟩ := full
    simp only [check, CString.charIndex_seven_bit seven, flags_byte seven, found, flagOf, Outcome.ofOption_some,
      Outcome.returned_bind, if_true, holds.push_full equal, Outcome.ofOption_none, Outcome.undefined_bind]
  · simp only [check, CString.charIndex, if_neg seven, Outcome.ofOption_none, Outcome.undefined_bind]

theorem check_next (holds : Holds depth stack) (admitted : Admitted depth byte)
    (counted : depthAfter depth (bracketsOf [byte]) = some after) (data : Option UInt8) :
    ∃ next character, check flags byte stack data = .returned (.next (next, character)) ∧ Holds after next := by
  have seven := admitted.ascii
  rw [depthAfter_singleton] at counted
  cases found : bracketOf byte with
  | none =>
      obtain rfl : depth = after := by simpa [found] using counted
      refine ⟨stack, data, ?_, holds⟩
      simp [check, CString.charIndex_seven_bit seven, flags_byte seven, found, flagOf]
  | some bracket =>
      cases bracket with
      | opening kind =>
          obtain rfl : depth + 1 = after := by simpa [found] using counted
          obtain ⟨pushed, result, more⟩ := holds.push (admitted.room kind found) byte
          refine ⟨pushed, data, ?_, more⟩
          simp [check, CString.charIndex_seven_bit seven, flags_byte seven, found, flagOf, result]
      | closing kind =>
          have positive : 0 < depth := by
            by_contra empty
            simp [found, show depth = 0 by omega] at counted
          have nonzero : depth ≠ 0 := by omega
          obtain rfl : depth - 1 = after := by simpa [found, nonzero] using counted
          obtain ⟨popped, character, result, less⟩ := holds.pop positive data
          refine ⟨popped, character, ?_, less⟩
          simp [check, CString.charIndex_seven_bit seven, flags_byte seven, found, flagOf, holds.isEmpty, nonzero, result]

theorem check_stop (holds : Holds depth stack) (admitted : Admitted depth byte)
    (counted : depthAfter depth (bracketsOf [byte]) = none) :
    check flags byte stack data = .returned (.stop .codeIsFail) := by
  have seven := admitted.ascii
  rw [depthAfter_singleton] at counted
  cases found : bracketOf byte with
  | none => simp [found] at counted
  | some bracket =>
      cases bracket with
      | opening kind => simp [found] at counted
      | closing kind =>
          have empty : depth = 0 := by simpa [found] using counted
          simp [check, CString.charIndex_seven_bit seven, flags_byte seven, found, flagOf, holds.isEmpty, empty]

/-- The characters of a text, without the lines that they are read in. -/
def scan (bsFlag : List Int) : (text : List UInt8) → Stack → Option UInt8 →
    Outcome (Iteration (Stack × Option UInt8) Verdict)
  | [], stack, data => return .next (stack, data)
  | character :: text, stack, data => do
      match ← check bsFlag character stack data with
      | .next (stack, data) => scan bsFlag text stack data
      | .stop verdict => return .stop verdict

def resume (bsFlag : List Int) (text : List UInt8) :
    Iteration (Stack × Option UInt8) Verdict → Outcome (Iteration (Stack × Option UInt8) Verdict)
  | .next (stack, data) => scan bsFlag text stack data
  | .stop verdict => return .stop verdict

def conclude : Iteration (Stack × Option UInt8) Verdict → Outcome Verdict
  | .next (stack, _) => return if stackIsEmpty stack then .codeIsOk else .codeFail
  | .stop verdict => return verdict

theorem scan_cons : scan flags (byte :: text) stack data = check flags byte stack data >>= resume flags text := by
  rw [scan]
  congr 1

theorem resume_append {iteration : Iteration (Stack × Option UInt8) Verdict}
    (appended : ∀ stack data, scan flags (text ++ rest) stack data = scan flags text stack data >>= resume flags rest) :
    resume flags (text ++ rest) iteration = resume flags text iteration >>= resume flags rest := by
  cases iteration with
  | next state => exact appended state.1 state.2
  | stop verdict => rfl

theorem scan_append :
    scan flags (text ++ rest) stack data = scan flags text stack data >>= resume flags rest := by
  induction text generalizing stack data with
  | nil => rfl
  | cons byte text ih =>
      rw [List.cons_append, scan_cons, scan_cons, Outcome.bind_assoc]
      congr 1
      funext iteration
      exact resume_append fun stack data => ih

theorem checkLine_eq (free : 0 ∉ text) :
    checkLine flags (text ++ 0 :: rest) stack data = scan flags text stack data := by
  induction text generalizing stack data with
  | nil => rfl
  | cons byte text ih =>
      rw [List.mem_cons, not_or] at free
      obtain ⟨apart, later⟩ := free
      rw [List.cons_append, checkLine, if_neg (Ne.symm apart), scan_cons]
      congr 1
      funext iteration
      cases iteration with
      | next state => exact ih later
      | stop verdict => rfl

/-- What a round makes of the end of its line. -/
def readNext (unread : List UInt8) :
    Iteration (Stack × Option UInt8) Verdict → Outcome (Iteration State Verdict)
  | .next (stack, data) => return .next { unread := unread, stack := stack, data := data }
  | .stop verdict => return .stop verdict

theorem round_eq (free : 0 ∉ text) (nonempty : text ≠ []) :
    round flags { unread := text, stack := stack, data := data } =
      scan flags (Wgrep.upToNewline 1023 text) stack data >>=
        readNext (text.drop (Wgrep.upToNewline 1023 text).length) := by
  have freeLine : 0 ∉ Wgrep.upToNewline 1023 text := fun member => free (Wgrep.upToNewline_within.subset member)
  simp only [round, Wgrep.fgets_some nonempty, checkLine_eq freeLine]
  congr 1

theorem loop_concludes {fuel : Nat} (free : 0 ∉ text) (enough : text.length < fuel) :
    whileLoop (round flags) fuel { unread := text, stack := stack, data := data } =
      scan flags text stack data >>= conclude := by
  induction fuel generalizing text stack data with
  | zero => contradiction
  | succ fuel ih =>
      by_cases nonempty : text = []
      · subst nonempty
        exact whileLoop_stop rfl
      · have positive : 0 < (Wgrep.upToNewline 1023 text).length := Wgrep.length_upToNewline_pos nonempty
        have length := List.length_pos_iff.mpr nonempty
        have shorter : (text.drop (Wgrep.upToNewline 1023 text).length).length < fuel := by
          rw [List.length_drop]
          omega
        have split : Wgrep.upToNewline 1023 text ++ text.drop (Wgrep.upToNewline 1023 text).length = text := by
          obtain ⟨unread, split⟩ : Wgrep.upToNewline 1023 text <+: text := Wgrep.upToNewline_within
          have left := congrArg (List.drop (Wgrep.upToNewline 1023 text).length) split
          rw [List.drop_left] at left
          rw [← left, split]
        have freeUnread : 0 ∉ text.drop (Wgrep.upToNewline 1023 text).length := fun member =>
          free (List.mem_of_mem_drop member)
        have whole : scan flags text stack data = scan flags (Wgrep.upToNewline 1023 text) stack data >>=
            resume flags (text.drop (Wgrep.upToNewline 1023 text).length) := by
          rw [← scan_append, split]
        rw [whileLoop_succ, round_eq free nonempty, whole, Outcome.bind_assoc, Outcome.bind_assoc]
        congr 1
        funext iteration
        cases iteration with
        | next state => exact ih freeUnread shorter
        | stop verdict => rfl

theorem balanceSymbol_eq (free : 0 ∉ file) :
    balanceSymbol file = scan flags file stackCreate none >>= conclude :=
  loop_concludes free (Nat.lt_succ_self _)

/-- Up to the first closing bracket without an opening one, each character is admitted. -/
def AllAdmitted (depth : Nat) (text : List UInt8) : Prop :=
  ∀ before byte behind, text = before ++ byte :: behind →
    ∀ reached, depthAfter depth (bracketsOf before) = some reached → Admitted reached byte

theorem bracketsOf_cons : bracketsOf (byte :: text) = bracketsOf [byte] ++ bracketsOf text := by
  rw [bracketsOf, bracketsOf, bracketsOf, ← List.filterMap_append, List.singleton_append]

theorem allAdmitted_nil : AllAdmitted depth [] := by
  intro before byte behind split
  exact absurd split (List.append_ne_nil_of_right_ne_nil _ (List.cons_ne_nil _ _)).symm

theorem allAdmitted_cons : AllAdmitted depth (byte :: text) ↔
    Admitted depth byte ∧
      ∀ after, depthAfter depth (bracketsOf [byte]) = some after → AllAdmitted after text := by
  constructor
  · intro all
    refine ⟨all [] byte text rfl depth rfl, fun after counted before other behind split reached beyond => ?_⟩
    refine all (byte :: before) other behind (by rw [split, List.cons_append]) reached ?_
    rw [bracketsOf_cons, depthAfter_append, counted, Option.bind_some, beyond]
  · intro given before other behind split reached counted
    obtain ⟨admitted, later⟩ := given
    cases before with
    | nil =>
        obtain ⟨rfl, -⟩ := List.cons.inj split
        cases counted
        exact admitted
    | cons first before =>
        obtain ⟨rfl, rest⟩ := List.cons.inj split
        rw [bracketsOf_cons, depthAfter_append, Option.bind_eq_some_iff] at counted
        obtain ⟨after, here, beyond⟩ := counted
        exact later after here before other behind rest reached beyond

theorem scan_refused (holds : Holds depth stack) (refused : ¬ AllAdmitted depth text) :
    scan flags text stack data = .undefined := by
  induction text generalizing depth stack data with
  | nil => exact absurd allAdmitted_nil refused
  | cons byte text ih =>
      rw [scan_cons]
      by_cases admitted : Admitted depth byte
      · have later : ∃ after, depthAfter depth (bracketsOf [byte]) = some after ∧ ¬ AllAdmitted after text := by
          simpa only [allAdmitted_cons, admitted, true_and, not_forall, exists_prop] using refused
        obtain ⟨after, counted, refusedLater⟩ := later
        obtain ⟨next, character, checked, holdsNext⟩ := check_next holds admitted counted data
        rw [checked, Outcome.returned_bind]
        exact ih holdsNext refusedLater
      · rw [check_refused holds admitted, Outcome.undefined_bind]

theorem scan_next (holds : Holds depth stack) (all : AllAdmitted depth text)
    (counted : depthAfter depth (bracketsOf text) = some after) (data : Option UInt8) :
    ∃ last character, scan flags text stack data = .returned (.next (last, character)) ∧ Holds after last := by
  induction text generalizing depth stack data with
  | nil =>
      cases counted
      exact ⟨stack, data, rfl, holds⟩
  | cons byte text ih =>
      obtain ⟨admitted, later⟩ := allAdmitted_cons.mp all
      rw [bracketsOf_cons, depthAfter_append, Option.bind_eq_some_iff] at counted
      obtain ⟨middle, here, beyond⟩ := counted
      obtain ⟨next, character, checked, holdsNext⟩ := check_next holds admitted here data
      rw [scan_cons, checked, Outcome.returned_bind]
      exact ih holdsNext (later middle here) beyond character

theorem scan_stop (holds : Holds depth stack) (all : AllAdmitted depth text)
    (counted : depthAfter depth (bracketsOf text) = none) :
    scan flags text stack data = .returned (.stop .codeIsFail) := by
  induction text generalizing depth stack data with
  | nil => cases counted
  | cons byte text ih =>
      obtain ⟨admitted, later⟩ := allAdmitted_cons.mp all
      rw [scan_cons]
      cases here : depthAfter depth (bracketsOf [byte]) with
      | none =>
          rw [check_stop holds admitted here]
          rfl
      | some middle =>
          rw [bracketsOf_cons, depthAfter_append, here, Option.bind_some] at counted
          obtain ⟨next, character, checked, holdsNext⟩ := check_next holds admitted here data
          rw [checked, Outcome.returned_bind]
          exact ih holdsNext (later middle here) counted

/-- The verdict only counts: what it says of a file is right when the kinds do not matter. -/
theorem balanceSymbol_counts (free : 0 ∉ file) (all : AllAdmitted 0 file) :
    ∃ verdict, balanceSymbol file = .returned verdict ∧
      (verdict = .codeIsOk ↔ depthAfter 0 (bracketsOf file) = some 0) := by
  rw [balanceSymbol_eq free]
  cases counted : depthAfter 0 (bracketsOf file) with
  | none =>
      rw [scan_stop holds_create all counted]
      exact ⟨.codeIsFail, rfl, by simp⟩
  | some depth =>
      obtain ⟨last, character, scanned, holds⟩ := scan_next holds_create all counted none
      rw [scanned]
      refine ⟨_, rfl, ?_⟩
      rw [holds.isEmpty]
      by_cases empty : depth = 0 <;> simp [empty]

theorem balanceSymbol_refused (free : 0 ∉ file) (refused : ¬ AllAdmitted 0 file) :
    balanceSymbol file = .undefined := by
  rw [balanceSymbol_eq free, scan_refused holds_create refused, Outcome.undefined_bind]

/-- A file is checked right exactly when, up to the first closing bracket without an opening one,
its characters are ASCII and no more than 16 brackets are open, and brackets that are balanced as
those of one kind are nested. -/
theorem checked_right_iff (free : 0 ∉ file) :
    CheckedRight file ↔
      AllAdmitted 0 file ∧
        (Nested ((bracketsOf file).map (Bracket.map fun _ => ())) → Nested (bracketsOf file)) := by
  rw [nested_unit_iff]
  constructor
  · intro given
    obtain ⟨verdict, printed, right⟩ := given
    have all : AllAdmitted 0 file := by
      by_contra refused
      rw [balanceSymbol_refused free refused] at printed
      cases printed
    obtain ⟨other, printedOther, counts⟩ := balanceSymbol_counts free all
    rw [printedOther] at printed
    cases printed
    exact ⟨all, fun balanced => right.mp (counts.mpr balanced)⟩
  · intro given
    obtain ⟨all, kinds⟩ := given
    obtain ⟨verdict, printed, counts⟩ := balanceSymbol_counts free all
    refine ⟨verdict, printed, counts.trans ⟨kinds, fun nested => ?_⟩⟩
    exact nested_unit_iff.mp (nested.map _)

theorem checked_right_pair : CheckedRight [40, 91, 93, 41] ↔
    AllAdmitted 0 [40, 91, 93, 41] ∧
      (Nested ((bracketsOf [40, 91, 93, 41]).map (Bracket.map fun _ => ())) → Nested (bracketsOf [40, 91, 93, 41])) :=
  checked_right_iff (by decide)

/-- A closing bracket of another kind is taken. -/
theorem unlike_pair_ok : ¬ CheckedRight [40, 93] := by
  intro given
  obtain ⟨verdict, printed, right⟩ := given
  have ok : balanceSymbol [40, 93] = .returned .codeIsOk := by decide +kernel
  rw [ok] at printed
  cases printed
  exact absurd (right.mp rfl) (by decide)

end Dwadelib.Grammar
