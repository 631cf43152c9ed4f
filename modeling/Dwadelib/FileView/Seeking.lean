import Dwadelib.FileView.Navigation
import Dwadelib.FileView.Numerals
import Mathlib.Data.List.TakeWhile

namespace Dwadelib.FileView

/-! # Seeking

An address that is typed as the viewer shows it leads to a screen with the byte at that address, wherever the
viewer was before.
-/

variable {size target i : Nat} {view : View} {keys : List Nat} {inbuf text digits : List UInt8} {byte : UInt8}

/-- No digit is a space, a sign or the letter of a prefix. -/
theorem digit_plain : ∀ byte : UInt8, isHexDigit byte = true →
    isSpace byte = false ∧ byte ≠ 0x2D ∧ byte ≠ 0x2B ∧ byte ≠ 0x78 ∧ byte ≠ 0x58 ∧ byte ≠ 0 := by
  intro byte digit
  simp only [isHexDigit, Bool.decide_or, Bool.decide_and, Bool.or_eq_true, Bool.and_eq_true, decide_eq_true_eq,
    UInt8.le_iff_toNat_le, UInt8.toNat_ofNat] at digit
  simp only [isSpace, decide_eq_false_iff_not, ne_eq, ← UInt8.toNat_inj, UInt8.le_iff_toNat_le, UInt8.toNat_ofNat]
  omega

theorem withoutPrefix_digits (plain : ∀ byte ∈ digits, isHexDigit byte = true) : withoutPrefix digits = digits := by
  unfold withoutPrefix
  split
  · rename_i first second third rest
    obtain ⟨-, -, -, lower, upper, -⟩ :=
      digit_plain second (plain second (List.mem_cons_of_mem _ List.mem_cons_self))
    exact if_neg fun prefixed => prefixed.2.1.elim lower upper
  · rfl

/-- Digits alone are read as they are. -/
theorem strtoull_digits (plain : ∀ byte ∈ digits, isHexDigit byte = true) (small : readHex 0 digits < 2 ^ 64) :
    strtoull digits = readHex 0 digits := by
  have skipped : digits.dropWhile isSpace = digits := by
    cases digits with
    | nil => rfl
    | cons first rest =>
        rw [List.dropWhile_cons_of_neg]
        rw [(digit_plain first (plain first List.mem_cons_self)).1]
        exact Bool.false_ne_true
  have unsigned : digits.head? ≠ some 0x2D ∧ digits.head? ≠ some 0x2B := by
    cases digits with
    | nil => exact ⟨nofun, nofun⟩
    | cons first rest =>
        obtain ⟨-, minus, plus, -⟩ := digit_plain first (plain first List.mem_cons_self)
        exact ⟨fun same => minus (Option.some.inj same), fun same => plus (Option.some.inj same)⟩
  have all : digits.takeWhile isHexDigit = digits := List.takeWhile_eq_self_iff.mpr plain
  have whole : (if digits.head? = some 0x2D ∨ digits.head? = some 0x2B then digits.tail else digits) = digits :=
    if_neg fun either => either.elim unsigned.1 unsigned.2
  unfold strtoull
  dsimp only
  rw [skipped, whole, withoutPrefix_digits plain, all, ← readHex, if_neg (Nat.not_le.mpr small), if_neg unsigned.1]

theorem digit_key (digit : isHexDigit byte = true) : 0x20 ≤ byte.toNat ∧ byte.toNat < 0x7F := by
  simp only [isHexDigit, Bool.decide_or, Bool.decide_and, Bool.or_eq_true, Bool.and_eq_true, decide_eq_true_eq,
    UInt8.le_iff_toNat_le, UInt8.toNat_ofNat] at digit
  omega

theorem press_digit (size : Nat) (view : View) (going : view.done = false) (seeking : view.mode = .seeking inbuf i) (digit : isHexDigit byte = true)
    (room : i + 1 < 15) (sized : inbuf.length = 16) :
    press size view byte.toNat = some { view with mode := .seeking (inbuf.set i byte) (i + 1) } := by
  obtain ⟨least, most⟩ := digit_key digit
  have whole : byte.toNat % 2 ^ 24 = byte.toNat := Nat.mod_eq_of_lt (by omega)
  have quit : byte.toNat ≠ KB_QUIT := by
    have code : KB_QUIT = 0x1B := rfl
    omega
  have left : ¬ (byte.toNat = KB_LEFT ∨ byte.toNat = KB_DEL) := by
    have code : KB_LEFT = 0x00445B1B ∧ KB_DEL = 0x00335B1B := ⟨rfl, rfl⟩
    omega
  have back : ¬ (byte.toNat = KB_BACK ∧ 0 < i) := by
    have code : KB_BACK = 0x7F := rfl
    omega
  rw [press, if_neg (by rw [going]; exact Bool.false_ne_true), seeking]
  dsimp only
  rw [whole, character, if_neg (by omega), if_neg quit]
  dsimp only
  rw [if_neg left, if_neg back, if_neg (by omega), if_pos (by omega), if_pos room, UInt8.ofNat_toNat]

/-- Digits are written behind each other, as many as there is room for. -/
theorem press_digits (size : Nat) (view : View) (going : view.done = false) (seeking : view.mode = .seeking (text ++ List.replicate (16 - i) 0) i)
    (typed : text.length = i) (plain : ∀ byte ∈ digits, isHexDigit byte = true) (room : i + digits.length < 15) :
    Run.run (press size) view (digits.map UInt8.toNat) =
      some { view with
        mode := .seeking (text ++ digits ++ List.replicate (16 - (i + digits.length)) 0) (i + digits.length) } := by
  induction digits generalizing text i view with
  | nil =>
      rw [List.append_nil, List.length_nil, Nat.add_zero, ← seeking]
      rfl
  | cons byte rest ih =>
      rw [List.length_cons] at room
      have sized : (text ++ List.replicate (16 - i) (0 : UInt8)).length = 16 := by
        rw [List.length_append, List.length_replicate]
        omega
      have pressed := press_digit size view going seeking (plain byte List.mem_cons_self) (by omega) sized
      obtain ⟨left, more⟩ : ∃ left, 16 - i = left + 1 := ⟨15 - i, by omega⟩
      have fewer : 16 - (i + 1) = left := by omega
      have written : (text ++ List.replicate (16 - i) 0).set i byte = text ++ [byte] ++ List.replicate (16 - (i + 1)) 0 := by
        rw [more, fewer, List.replicate_succ, List.set_append_right _ _ (Nat.le_of_eq typed), typed, Nat.sub_self,
          List.set_cons_zero, List.append_assoc, List.singleton_append]
      rw [written] at pressed
      have further := ih { view with mode := .seeking (text ++ [byte] ++ List.replicate (16 - (i + 1)) 0) (i + 1) } going rfl
        (by rw [List.length_append, typed, List.length_singleton])
        (fun other member => plain other (List.mem_cons_of_mem _ member)) (by omega)
      have count : i + 1 + rest.length = i + (byte :: rest).length := by
        rw [List.length_cons]
        omega
      have joined : text ++ [byte] ++ rest = text ++ byte :: rest := List.append_assoc text [byte] rest
      rw [count, joined] at further
      rw [List.map_cons, Run.run_cons, pressed, Option.bind_some, further]

theorem press_enter (size : Nat) (view : View) (going : view.done = false) (seeking : view.mode = .seeking inbuf i) :
    press size view 0x0A = some (seek size inbuf view) := by
  rw [press, if_neg (by rw [going]; exact Bool.false_ne_true), seeking]
  rfl

theorem press_seek (going : view.done = false) (browsing : view.mode = .browsing) (inside : Inside size view) :
    press size view KB_SEEK = some { view with
      pageincr := restore view.pageincr
      mode := .seeking (List.replicate 16 0) 0 } := by
  have kept := within_inside inside.lower inside.upper
  rw [press, if_neg (by rw [going]; exact Bool.false_ne_true), browsing]
  dsimp only
  have moved : move size (KB_SEEK % 2 ^ 24) { view with
      pageincr := restore view.pageincr
      mode := .browsing } = some { view with
      pageincr := restore view.pageincr
      mode := .seeking (List.replicate 16 0) 0 } := rfl
  rw [command, moved, Option.map_some]
  dsimp only
  rw [kept]

/-- Where an address inside the file leads. -/
theorem seek_address (view : View) (inside : target < size) (small : size ≤ 16 ^ 13)
    (typed : CString.contents inbuf = hexPad 13 target) :
    (seek size inbuf view).position ≤ target ∧ target < (seek size inbuf view).position + 256 := by
  have room : target < 16 ^ 13 := by omega
  have wide : (16 : Nat) ^ 13 < 2 ^ 63 := by decide
  have read := readHex_hexPad room (by decide)
  have number : strtoull (CString.contents inbuf) = target := by
    rw [typed, strtoull_digits (fun byte member => hexPad_digits member) (by omega), read]
  have signed : Int.bmod target (2 ^ 64) = target := by
    simp only [Int.bmod]
    split <;> omega
  have reaches := posmax_reaches size
  obtain ⟨least, -⟩ := posmax_bounds size
  rw [seek]
  dsimp only
  rw [number, signed]
  unfold within paragraph posmin
  dsimp only
  split <;> split <;> omega

/-- The digits of any place of the file, typed behind `KB_SEEK` and ended with a newline, lead to a screen with that
place, in the same format, from wherever keys have led. -/
theorem address_reached (small : size ≤ 16 ^ 13) (reached : Run.run (press size) start keys = some view)
    (going : view.done = false) (browsing : view.mode = .browsing) (inside : target < size) :
    ∃ after, Run.run (press size) view (KB_SEEK :: (hexPad 13 target).map UInt8.toNat ++ [0x0A]) = some after ∧
      after.mode = .browsing ∧ after.format = view.format ∧ after.position ≤ target ∧
      target < after.position + 256 := by
  have held := reached_inside (by omega) reached
  have room : target < 16 ^ 13 := by omega
  have thirteen : (hexPad 13 target).length = 13 := length_hexPad room (by decide)
  have typed := press_digits size { view with
      pageincr := restore view.pageincr
      mode := .seeking ([] ++ List.replicate (16 - 0) 0) 0 }
    going rfl rfl (fun byte (member : byte ∈ hexPad 13 target) => hexPad_digits member) (by omega)
  rw [thirteen, List.nil_append, List.nil_append, Nat.zero_add] at typed
  have entered := press_enter size { view with
    pageincr := restore view.pageincr
    mode := .seeking (hexPad 13 target ++ List.replicate (16 - 13) 0) 13 } going rfl
  have free : (0 : UInt8) ∉ hexPad 13 target := fun member => (digit_plain 0 (hexPad_digits member)).2.2.2.2.2 rfl
  have contents : CString.contents (hexPad 13 target ++ List.replicate (16 - 13) 0) = hexPad 13 target :=
    CString.contents_terminated free
  have reaches := seek_address { view with
    pageincr := restore view.pageincr
    mode := .seeking (hexPad 13 target ++ List.replicate (16 - 13) 0) 13 } inside small contents
  refine ⟨_, ?_, ?_, ?_, reaches⟩
  · rw [List.cons_append, Run.run_cons, press_seek going browsing held, Option.bind_some, Run.run_append]
    rw [typed, Option.bind_some]
    exact Run.run_cons_eq_some.mpr ⟨_, entered, Run.run_nil⟩
  · rw [seek]
  · rw [seek]

/-- Place 0x123 of a file of 5000 bytes, after a page down in words. -/
theorem address_reached_words :
    ∃ after, Run.run (press (5000 : Nat)) { position := 256, pageincr := 256, format := 2, done := false, mode := .browsing }
        (KB_SEEK :: (hexPad 13 0x123).map UInt8.toNat ++ [0x0A]) = some after ∧
      after.mode = .browsing ∧ after.format = 2 ∧ after.position ≤ (0x123 : Nat) ∧
      ((0x123 : Nat) : Int) < after.position + 256 := by
  have reached : Run.run (press (5000 : Nat)) start [0x77, KB_PGDN] =
      some { position := 256, pageincr := 256, format := 2, done := false, mode := .browsing } := by decide
  exact address_reached (by decide) reached rfl rfl (by decide)

end Dwadelib.FileView
