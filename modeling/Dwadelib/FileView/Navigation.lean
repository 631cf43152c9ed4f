import Dwadelib.FileView
import Dwadelib.Run
import Mathlib.Tactic.Common

namespace Dwadelib.FileView

/-! # Where the keys lead

Whatever is pressed, the position stays on a paragraph inside the file, the step of a page stays a power of
sixteen between its bounds, no arithmetic overflows and nothing is written behind the end of the typed text.
-/

variable {filesize position : Int} {view next : View} {key ch i : Nat} {keys : List Nat} {inbuf text : List UInt8}

/-- The text typed so far, and nothing but zeros behind it. -/
def Typed (inbuf : List UInt8) (i : Nat) : Prop :=
  ∃ text, inbuf = text ++ List.replicate (16 - i) 0 ∧ text.length = i ∧ i < 15 ∧ ∀ byte ∈ text, 0x20 ≤ byte ∧ byte ≤ 0x7E

/-- What commands leave as it is, wherever they lead. -/
structure Steady (view : View) : Prop where
  aligned : view.position % 16 = 0
  step : ∃ k, 2 ≤ k ∧ k ≤ 9 ∧ restore view.pageincr = 16 ^ k
  format : view.format ∈ [1, 2, 4, 8, 16]
  typed : ∀ inbuf i, view.mode = .seeking inbuf i → Typed inbuf i

structure Inside (filesize : Int) (view : View) : Prop extends Steady view where
  lower : 0 ≤ view.position
  upper : view.position ≤ posmax filesize

theorem paragraph_aligned (value : Int) : paragraph value % 16 = 0 := by
  rw [paragraph]
  omega

theorem posmax_bounds (filesize : Int) : 0 ≤ posmax filesize ∧ posmax filesize % 16 = 0 := by
  have aligned := paragraph_aligned (filesize - 241)
  unfold posmax
  split
  · exact ⟨Int.le_refl 0, rfl⟩
  · rename_i above
    exact ⟨Int.not_lt.mp above, aligned⟩

/-- The last page reaches the end of the file. -/
theorem posmax_reaches (filesize : Int) : filesize ≤ posmax filesize + 256 := by
  unfold posmax paragraph posmin
  split <;> omega

theorem within_bounds (filesize : Int) (aligned : position % 16 = 0) :
    0 ≤ within filesize position ∧ within filesize position ≤ posmax filesize ∧ within filesize position % 16 = 0 := by
  obtain ⟨least, whole⟩ := posmax_bounds filesize
  unfold within posmin
  dsimp only
  split
  · split <;> omega
  · split <;> omega

theorem within_inside (lower : 0 ≤ position) (upper : position ≤ posmax filesize) : within filesize position = position := by
  unfold within posmin
  rw [if_neg (Int.not_lt.mpr lower), if_neg (Int.not_lt.mpr upper)]

theorem longLong_eq (lower : -2 ^ 63 ≤ position) (upper : position < 2 ^ 63) : longLong position = some position :=
  if_pos ⟨lower, upper⟩

/-- The steps that a page can have are kept, made smaller and made larger. -/
theorem restore_power {k : Nat} (least : 2 ≤ k) (most : k ≤ 9) :
    restore (16 ^ k) = 16 ^ k ∧ (∃ fewer, 2 ≤ fewer ∧ fewer ≤ 9 ∧ restore (16 ^ k / 2 ^ 4) = 16 ^ fewer) ∧
      ∃ more, 2 ≤ more ∧ more ≤ 9 ∧ restore (16 ^ k * 2 ^ 4) = 16 ^ more := by
  obtain rfl | rfl | rfl | rfl | rfl | rfl | rfl | rfl : k = 2 ∨ k = 3 ∨ k = 4 ∨ k = 5 ∨ k = 6 ∨ k = 7 ∨ k = 8 ∨ k = 9 := by
    omega
  · exact ⟨rfl, ⟨2, by decide, by decide, rfl⟩, 3, by decide, by decide, rfl⟩
  · exact ⟨rfl, ⟨2, by decide, by decide, rfl⟩, 4, by decide, by decide, rfl⟩
  · exact ⟨rfl, ⟨3, by decide, by decide, rfl⟩, 5, by decide, by decide, rfl⟩
  · exact ⟨rfl, ⟨4, by decide, by decide, rfl⟩, 6, by decide, by decide, rfl⟩
  · exact ⟨rfl, ⟨5, by decide, by decide, rfl⟩, 7, by decide, by decide, rfl⟩
  · exact ⟨rfl, ⟨6, by decide, by decide, rfl⟩, 8, by decide, by decide, rfl⟩
  · exact ⟨rfl, ⟨7, by decide, by decide, rfl⟩, 9, by decide, by decide, rfl⟩
  · exact ⟨rfl, ⟨8, by decide, by decide, rfl⟩, 9, by decide, by decide, rfl⟩

theorem Steady.moved {target : Int} (steady : Steady view) (aligned : target % 16 = 0) :
    Steady { view with position := target } :=
  ⟨aligned, steady.step, steady.format, steady.typed⟩

theorem Steady.formatted {format : Nat} (steady : Steady view) (known : format ∈ [1, 2, 4, 8, 16]) :
    Steady { view with format := format } :=
  ⟨steady.aligned, steady.step, known, steady.typed⟩

theorem Steady.paged {pageincr : Int} (steady : Steady view)
    (step : ∃ k, 2 ≤ k ∧ k ≤ 9 ∧ restore pageincr = 16 ^ k) : Steady { view with pageincr := pageincr } :=
  ⟨steady.aligned, step, steady.format, steady.typed⟩

theorem typed_start : Typed (List.replicate 16 0) 0 := ⟨[], rfl, rfl, by decide, fun byte member => by contradiction⟩

theorem power_bounds {k : Nat} (least : 2 ≤ k) (most : k ≤ 9) :
    (16 : Int) ^ k % 16 = 0 ∧ 0 < (16 : Int) ^ k ∧ (16 : Int) ^ k ≤ 2 ^ 36 := by
  obtain rfl | rfl | rfl | rfl | rfl | rfl | rfl | rfl : k = 2 ∨ k = 3 ∨ k = 4 ∨ k = 5 ∨ k = 6 ∨ k = 7 ∨ k = 8 ∨ k = 9 := by
    omega
  all_goals decide

/-- A move to a line, which a `long long` can hold. -/
theorem Steady.shifted {target : Int} (steady : Steady view) (lines : target % 16 = 0) (lower : -2 ^ 63 ≤ target)
    (upper : target < 2 ^ 63) :
    ∃ moved, ((longLong target).map fun position => { view with position := position }) = some moved ∧ Steady moved :=
  ⟨_, by rw [longLong_eq lower upper, Option.map_some], steady.moved lines⟩

theorem either {chosen : Prop} [Decidable chosen] {first second : Option View}
    (yes : ∃ moved, first = some moved ∧ Steady moved) (no : ∃ moved, second = some moved ∧ Steady moved) :
    ∃ moved, (if chosen then first else second) = some moved ∧ Steady moved := by
  split
  · exact yes
  · exact no

theorem move_steady (small : filesize + 2 ^ 36 ≤ 2 ^ 63) (inside : Inside filesize view) {k : Nat} (least : 2 ≤ k)
    (most : k ≤ 9) (page : view.pageincr = 16 ^ k) (inch : Nat) :
    ∃ moved, move filesize inch view = some moved ∧ Steady moved := by
  have steady := inside.toSteady
  obtain ⟨lines, positive, largest⟩ := power_bounds least most
  obtain ⟨-, fewer, more⟩ := restore_power least most
  rw [← page] at lines positive largest fewer more
  have lower := inside.lower
  have aligned := inside.aligned
  have upper : view.position < 2 ^ 63 - 2 ^ 36 := by
    have reached := inside.upper
    unfold posmax paragraph posmin at reached
    split at reached <;> omega
  have wide : (BUFWIDE : Int) = 16 := rfl
  unfold move
  refine either ⟨_, rfl, steady.moved rfl⟩ ?_
  refine either ⟨_, rfl, steady.moved (posmax_bounds filesize).2⟩ ?_
  refine either (steady.shifted (by omega) (by omega) (by omega)) ?_
  refine either (steady.shifted (by omega) (by omega) (by omega)) ?_
  refine either (steady.shifted (by omega) (by omega) (by omega)) ?_
  refine either (steady.shifted (by omega) (by omega) (by omega)) ?_
  refine either ⟨_, rfl, steady.paged fewer⟩ ?_
  refine either ⟨_, by rw [longLong_eq (by omega) (by omega), Option.map_some], steady.paged more⟩ ?_
  refine either ⟨_, rfl, steady.formatted (by decide)⟩ ?_
  refine either ⟨_, rfl, steady.formatted (by decide)⟩ ?_
  refine either ⟨_, rfl, steady.formatted (by decide)⟩ ?_
  refine either ⟨_, rfl, steady.formatted (by decide)⟩ ?_
  refine either ⟨_, rfl, steady.formatted (by decide)⟩ ?_
  refine either ⟨_, rfl, steady.aligned, steady.step, steady.format, fun inbuf i same => ?_⟩ ?_
  · cases same
    exact typed_start
  · exact either ⟨_, rfl, steady.aligned, steady.step, steady.format, steady.typed⟩ ⟨_, rfl, steady⟩

/-- Bringing the position into its bounds. -/
theorem Steady.bounded (steady : Steady view) :
    Inside filesize { view with position := within filesize view.position } := by
  obtain ⟨lower, upper, aligned⟩ := within_bounds filesize steady.aligned
  exact ⟨steady.moved aligned, lower, upper⟩

theorem command_inside (small : filesize + 2 ^ 36 ≤ 2 ^ 63) (inside : Inside filesize view) (inch : Nat) :
    ∃ next, command filesize inch { view with pageincr := restore view.pageincr } = some next ∧ Inside filesize next := by
  obtain ⟨k, least, most, page⟩ := inside.step
  have kept : restore (restore view.pageincr) = 16 ^ k := by rw [page, (restore_power least most).1]
  have restored : Inside filesize { view with pageincr := restore view.pageincr } :=
    ⟨inside.toSteady.paged ⟨k, least, most, kept⟩, inside.lower, inside.upper⟩
  obtain ⟨moved, went, steady⟩ := move_steady small restored least most page inch
  exact ⟨_, by rw [command, went, Option.map_some], steady.bounded⟩

theorem seek_inside (inside : Inside filesize view) (inbuf : List UInt8) : Inside filesize (seek filesize inbuf view) := by
  rw [seek]
  generalize Int.bmod _ _ = address
  have steady : Steady { view with position := paragraph address, mode := .browsing } :=
    ⟨paragraph_aligned address, inside.step, inside.format, fun inbuf i same => by contradiction⟩
  exact steady.bounded

theorem Inside.typing (inside : Inside filesize view) (typed : Typed inbuf i) :
    Inside filesize { view with mode := .seeking inbuf i } := by
  refine ⟨⟨inside.aligned, inside.step, inside.format, fun other j same => ?_⟩, inside.lower, inside.upper⟩
  cases same
  exact typed

theorem Typed.length (typed : Typed inbuf i) : inbuf.length = 16 ∧ i < 15 := by
  obtain ⟨text, rfl, length, room, -⟩ := typed
  rw [List.length_append, List.length_replicate]
  omega

theorem typed_more {byte : UInt8} (typed : Typed inbuf i) (room : i + 1 < 15) (shown : 0x20 ≤ byte ∧ byte ≤ 0x7E) :
    Typed (inbuf.set i byte) (i + 1) := by
  obtain ⟨text, rfl, length, -, printable⟩ := typed
  obtain ⟨rest, left⟩ : ∃ rest, 16 - i = rest + 1 := ⟨15 - i, by omega⟩
  refine ⟨text ++ [byte], ?_, by rw [List.length_append, length, List.length_singleton], room, fun other member => ?_⟩
  · have fewer : 16 - (i + 1) = rest := by omega
    rw [left, fewer, List.replicate_succ, ← length, List.set_append_right _ _ (Nat.le_refl _), Nat.sub_self,
      List.set_cons_zero, List.append_assoc, List.singleton_append]
  · rcases List.mem_append.mp member with earlier | last
    · exact printable other earlier
    · rw [List.mem_singleton.mp last]
      exact shown

theorem typed_less (typed : Typed inbuf i) (some_ : 0 < i) : Typed (inbuf.set (i - 1) 0) (i - 1) := by
  obtain ⟨text, rfl, length, room, printable⟩ := typed
  obtain ⟨front, last, rfl⟩ : ∃ front last, text = front ++ [last] := by
    refine ⟨text.dropLast, text.getLast (fun empty => ?_), (List.dropLast_append_getLast _).symm⟩
    rw [empty, List.length_nil] at length
    omega
  rw [List.length_append, List.length_singleton] at length
  refine ⟨front, ?_, by omega, by omega, fun byte member => printable byte (List.mem_append_left _ member)⟩
  have fewer : 16 - (i - 1) = 16 - i + 1 := by omega
  have place : i - 1 = front.length := by omega
  rw [fewer, place, List.append_assoc, List.set_append_right _ _ (Nat.le_refl _), Nat.sub_self, List.singleton_append,
    List.set_cons_zero, List.replicate_succ]

theorem character_inside (inside : Inside filesize view) (seeking : view.mode = .seeking inbuf i) (ch : Nat) :
    ∃ next, character filesize ch inbuf i view = some next ∧ Inside filesize next := by
  have typed := inside.typed inbuf i seeking
  obtain ⟨length, room⟩ := typed.length
  unfold character
  dsimp only
  split
  · exact ⟨_, rfl, seek_inside inside inbuf⟩
  split
  · exact ⟨_, rfl, seek_inside inside _⟩
  generalize (if ch = KB_LEFT ∨ ch = KB_DEL then KB_BACK else ch) = ch
  split
  · rename_i back
    exact ⟨_, rfl, inside.typing (typed_less typed back.2)⟩
  split
  · exact ⟨_, rfl, inside⟩
  · rename_i other
    have small : ch < 2 ^ 8 := by omega
    have shown : 0x20 ≤ UInt8.ofNat ch ∧ UInt8.ofNat ch ≤ 0x7E := by
      rw [UInt8.le_iff_toNat_le, UInt8.le_iff_toNat_le, UInt8.toNat_ofNat', Nat.mod_eq_of_lt small]
      exact ⟨Nat.le_of_not_lt fun less => other (.inl less), Nat.le_of_not_lt fun less => other (.inr less)⟩
    rw [if_pos (by omega)]
    split
    · rename_i more
      exact ⟨_, rfl, inside.typing (typed_more typed more shown)⟩
    · exact ⟨_, rfl, seek_inside inside _⟩

theorem press_inside (small : filesize + 2 ^ 36 ≤ 2 ^ 63) (inside : Inside filesize view) (going : view.done = false)
    (key : Nat) : ∃ next, press filesize view key = some next ∧ Inside filesize next := by
  rw [press, if_neg (by rw [going]; exact Bool.false_ne_true)]
  split
  · exact command_inside small inside (key % 2 ^ 24)
  · rename_i inbuf i mode
    exact character_inside inside mode (key % 2 ^ 24)

theorem start_inside (filesize : Int) : Inside filesize start :=
  ⟨⟨rfl, ⟨2, by decide, by decide, rfl⟩, by decide, fun inbuf i same => by contradiction⟩, Int.le_refl 0,
    (posmax_bounds filesize).1⟩

theorem reached_inside (small : filesize + 2 ^ 36 ≤ 2 ^ 63) (reached : Run.run (press filesize) start keys = some view) :
    Inside filesize view := by
  have kept : ∀ before key after, Inside filesize before → press filesize before key = some after →
      Inside filesize after := by
    intro before key after inside pressed
    cases ended : before.done with
    | true =>
        rw [press, ended, if_pos rfl] at pressed
        contradiction
    | false =>
        obtain ⟨next, went, still⟩ := press_inside small inside ended key
        cases went.symm.trans pressed
        exact still
  exact Run.invariant_of_run kept (start_inside filesize) reached

/-- Whatever keys are pressed, the viewer goes on until it is told to stop, without leaving the buffer of an address,
and without an overflow if the file ends a largest page before the end of the range. The position is a paragraph from
which the viewer shows part of the file; a page is a power of sixteen. -/
theorem keys_lead (small : filesize + 2 ^ 36 ≤ 2 ^ 63) (reached : Run.run (press filesize) start keys = some view) :
    0 ≤ view.position ∧ view.position ≤ posmax filesize ∧ view.position % 16 = 0 ∧
      (∃ k, 2 ≤ k ∧ k ≤ 9 ∧ restore view.pageincr = 16 ^ k) ∧ view.format ∈ [1, 2, 4, 8, 16] ∧
      (∀ inbuf i, view.mode = .seeking inbuf i → Typed inbuf i) ∧
      (view.done = false → ∀ key, ∃ next, press filesize view key = some next) := by
  have inside := reached_inside small reached
  refine ⟨inside.lower, inside.upper, inside.aligned, inside.step, inside.format, inside.typed, fun going key => ?_⟩
  obtain ⟨next, pressed, -⟩ := press_inside small inside going key
  exact ⟨next, pressed⟩

/-- A file of 5000 bytes: its end, and an address with a character taken back. -/
theorem keys_lead_end : Run.run (press 5000) start [0x65, KB_LEFT, KB_SEEK, 0x31, 0x33, KB_BACK, 0x32] =
      some {
        position := 4752
        pageincr := 4096
        format := 1
        done := false
        mode := .seeking ([0x31, 0x32] ++ List.replicate 14 0) 2 } ∧
    0 ≤ (4752 : Int) ∧ (4752 : Int) ≤ posmax 5000 ∧ (4752 : Int) % 16 = 0 ∧
    (∃ k, 2 ≤ k ∧ k ≤ 9 ∧ restore 4096 = 16 ^ k) ∧ 1 ∈ [1, 2, 4, 8, 16] ∧
    (∀ inbuf i, Mode.seeking ([0x31, 0x32] ++ List.replicate 14 0) 2 = .seeking inbuf i → Typed inbuf i) ∧
    (false = false → ∀ key, ∃ next, press 5000 {
      position := 4752
      pageincr := 4096
      format := 1
      done := false
      mode := .seeking ([0x31, 0x32] ++ List.replicate 14 0) 2 } key = some next) := by
  have reached : Run.run (press 5000) start [0x65, KB_LEFT, KB_SEEK, 0x31, 0x33, KB_BACK, 0x32] =
      some {
        position := 4752
        pageincr := 4096
        format := 1
        done := false
        mode := .seeking ([0x31, 0x32] ++ List.replicate 14 0) 2 } := by decide
  exact ⟨reached, keys_lead (by decide) reached⟩

end Dwadelib.FileView
