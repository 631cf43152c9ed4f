import Mathlib.Data.List.Basic

namespace Dwadelib

/-! # Strings that end with a zero byte -/

namespace CString

variable {text rest : List UInt8} {index : Nat}

/-- The number of bytes before the first zero; `none` where there is none. -/
def strlen (cells : List UInt8) : Option Nat :=
  if 0 ∈ cells then some (cells.findIdx fun byte => byte = 0) else none

/-- The bytes of a string that starts an array. -/
def contents (cells : List UInt8) : List UInt8 := cells.takeWhile fun byte => byte ≠ 0

theorem strlen_terminated (free : 0 ∉ text) : strlen (text ++ 0 :: rest) = some text.length := by
  have member : 0 ∈ text ++ 0 :: rest := List.mem_append_right _ List.mem_cons_self
  have missing : ∀ byte ∈ text, decide (byte = 0) = false := by
    intro byte inside
    simpa using ne_of_mem_of_not_mem inside free
  rw [strlen, if_pos member, List.findIdx_append, List.findIdx_eq_length_of_false missing,
    if_neg (Nat.lt_irrefl _), List.findIdx_cons, decide_eq_true rfl, cond_true, Nat.zero_add]

theorem contents_terminated (free : 0 ∉ text) : contents (text ++ 0 :: rest) = text := by
  rw [contents, List.takeWhile_append_of_pos]
  · rw [List.takeWhile_cons_of_neg (by decide), List.append_nil]
  · intro byte inside
    simpa using ne_of_mem_of_not_mem inside free

/-- `char` is signed: the bytes from 128 on are negative and index no array. -/
def charIndex (byte : UInt8) : Option Nat :=
  if byte.toNat < 128 then some byte.toNat else none

theorem charIndex_seven_bit {byte : UInt8} (small : byte.toNat < 128) : charIndex byte = some byte.toNat :=
  if_pos small

end CString

end Dwadelib
