import Mathlib.Algebra.Order.Ring.Nat
import Mathlib.Data.List.Basic
import Mathlib.Tactic.Common

namespace Dwadelib

/-! # Numbers in one to six bytes

The first byte tells how many bytes there are and holds the high bits of the number; each of the
others is marked as one of them and holds six bits.
-/

namespace Utf8

variable {first : UInt8} {others : List UInt8} {n count high number : Nat}

/-- The least first byte of `n`. -/
def mark (n : Nat) : Nat := if n = 1 then 0 else 256 - 2 ^ (8 - n)

/-- How many first bytes of `n` there are. -/
def width (n : Nat) : Nat := if n = 1 then 128 else 2 ^ (7 - n)

/-- The least number that `n` bytes do not hold. -/
def limit (n : Nat) : Nat := width n * 64 ^ (n - 1)

def following : Nat → Nat → List UInt8
  | 0, _ => []
  | count + 1, number => UInt8.ofNat (0x80 + number / 64 ^ count % 64) :: following count number

def form (n number : Nat) : List UInt8 :=
  UInt8.ofNat (mark n + number / 64 ^ (n - 1)) :: following (n - 1) number

/-- The bytes that a number needs. -/
def size (number : Nat) : Nat :=
  if number < limit 1 then 1
  else if number < limit 2 then 2
  else if number < limit 3 then 3
  else if number < limit 4 then 4
  else if number < limit 5 then 5
  else 6

def shortest (number : Nat) : List UInt8 := form (size number) number

/-- The number whose high bits are given and whose low ones are in the other bytes. -/
def numberFrom : Nat → List UInt8 → Nat
  | high, [] => high
  | high, byte :: others => numberFrom (high * 64 + byte.toNat % 64) others

theorem toNat_following : (UInt8.ofNat (0x80 + number % 64)).toNat = 0x80 + number % 64 := by
  rw [UInt8.toNat_ofNat', Nat.mod_eq_of_lt (by omega)]

@[simp] theorem length_following : (following count number).length = count := by
  induction count with
  | zero => rfl
  | succ count ih => rw [following, List.length_cons, ih]

theorem marked_following : ∀ byte ∈ following count number, byte.toNat / 64 = 2 := by
  induction count with
  | zero => simp [following]
  | succ count ih =>
      have marked : (UInt8.ofNat (0x80 + number / 64 ^ count % 64)).toNat / 64 = 2 := by
        rw [toNat_following]
        omega
      rw [following]
      exact List.forall_mem_cons.mpr ⟨marked, ih⟩

theorem numberFrom_following : numberFrom (number / 64 ^ count) (following count number) = number := by
  induction count with
  | zero => rw [following, numberFrom, Nat.pow_zero, Nat.div_one]
  | succ count ih =>
      have digits : number / 64 ^ (count + 1) * 64 + (0x80 + number / 64 ^ count % 64) % 64 = number / 64 ^ count := by
        rw [Nat.pow_succ, ← Nat.div_div_eq_div_mul]
        omega
      rw [following, numberFrom, toNat_following, digits, ih]

theorem numberFrom_div (others : List UInt8) (high : Nat) :
    numberFrom high others / 64 ^ others.length = high := by
  induction others generalizing high with
  | nil => rw [numberFrom, List.length_nil, Nat.pow_zero, Nat.div_one]
  | cons byte others ih =>
      rw [numberFrom, List.length_cons, Nat.pow_succ, ← Nat.div_div_eq_div_mul, ih]
      omega

theorem following_numberFrom (marked : ∀ byte ∈ others, byte.toNat / 64 = 2) (high : Nat) :
    following others.length (numberFrom high others) = others := by
  induction others generalizing high with
  | nil => rfl
  | cons byte others ih =>
      obtain ⟨here, later⟩ := List.forall_mem_cons.mp marked
      have same : UInt8.ofNat (0x80 + (high * 64 + byte.toNat % 64) % 64) = byte := by
        have digits : 0x80 + (high * 64 + byte.toNat % 64) % 64 = byte.toNat := by omega
        rw [digits, UInt8.ofNat_toNat]
      rw [numberFrom, List.length_cons, following, numberFrom_div, ih later, same]

/-- A first byte of `n` and as many others as it tells. -/
structure Sequence (n : Nat) (first : UInt8) (others : List UInt8) : Prop where
  length : others.length + 1 = n
  least : mark n ≤ first.toNat
  most : first.toNat < mark n + width n
  marked : ∀ byte ∈ others, byte.toNat / 64 = 2

def value (n : Nat) (first : UInt8) (others : List UInt8) : Nat := numberFrom (first.toNat - mark n) others

section Digits

variable {b2 b3 b4 b5 b6 : UInt8}

theorem value_two : value 2 first [b2] = (first.toNat - 0xC0) * 64 + b2.toNat % 64 := rfl

theorem value_three :
    value 3 first [b2, b3] = ((first.toNat - 0xE0) * 64 + b2.toNat % 64) * 64 + b3.toNat % 64 := rfl

theorem value_four : value 4 first [b2, b3, b4] =
    (((first.toNat - 0xF0) * 64 + b2.toNat % 64) * 64 + b3.toNat % 64) * 64 + b4.toNat % 64 := rfl

theorem value_five : value 5 first [b2, b3, b4, b5] =
    ((((first.toNat - 0xF8) * 64 + b2.toNat % 64) * 64 + b3.toNat % 64) * 64 + b4.toNat % 64) * 64 +
      b5.toNat % 64 := rfl

theorem value_six : value 6 first [b2, b3, b4, b5, b6] =
    (((((first.toNat - 0xFC) * 64 + b2.toNat % 64) * 64 + b3.toNat % 64) * 64 + b4.toNat % 64) * 64 +
      b5.toNat % 64) * 64 + b6.toNat % 64 := rfl

end Digits

theorem form_value (sequence : Sequence n first others) : form n (value n first others) = first :: others := by
  have count : n - 1 = others.length := by
    have length := sequence.length
    omega
  have least := sequence.least
  have same : mark n + (first.toNat - mark n) = first.toNat := by omega
  rw [form, value, count, numberFrom_div, same, UInt8.ofNat_toNat, following_numberFrom sequence.marked]

theorem value_lt_limit (sequence : Sequence n first others) : value n first others < limit n := by
  have count : n - 1 = others.length := by
    have length := sequence.length
    omega
  have least := sequence.least
  have most := sequence.most
  have high : value n first others / 64 ^ others.length = first.toNat - mark n := numberFrom_div others _
  rw [limit, count]
  apply (Nat.div_lt_iff_lt_mul (Nat.pow_pos (by decide))).mp
  omega

section Form

variable (positive : 1 ≤ n) (bound : n ≤ 6)
include positive bound

theorem mark_add_width : mark n + width n ≤ 256 := by
  have cases : n = 1 ∨ n = 2 ∨ n = 3 ∨ n = 4 ∨ n = 5 ∨ n = 6 := by omega
  rcases cases with rfl | rfl | rfl | rfl | rfl | rfl <;> decide

theorem toNat_first (small : number < limit n) :
    (UInt8.ofNat (mark n + number / 64 ^ (n - 1))).toNat = mark n + number / 64 ^ (n - 1) := by
  have room := mark_add_width positive bound
  have high : number / 64 ^ (n - 1) < width n := Nat.div_lt_of_lt_mul (by rwa [Nat.mul_comm])
  rw [UInt8.toNat_ofNat', Nat.mod_eq_of_lt (by omega)]

theorem sequence_form (small : number < limit n) :
    Sequence n (UInt8.ofNat (mark n + number / 64 ^ (n - 1))) (following (n - 1) number) := by
  have high : number / 64 ^ (n - 1) < width n := Nat.div_lt_of_lt_mul (by rwa [Nat.mul_comm])
  have first := toNat_first positive bound small
  constructor
  · rw [length_following]
    omega
  · rw [first]
    exact Nat.le_add_right _ _
  · rw [first]
    exact Nat.add_lt_add_left high _
  · exact marked_following

theorem value_form (small : number < limit n) :
    value n (UInt8.ofNat (mark n + number / 64 ^ (n - 1))) (following (n - 1) number) = number := by
  rw [value, toNat_first positive bound small, Nat.add_sub_cancel_left, numberFrom_following]

end Form

theorem limit_eq : limit 1 = 0x80 ∧ limit 2 = 0x800 ∧ limit 3 = 0x10000 ∧ limit 4 = 0x200000 ∧
    limit 5 = 0x4000000 ∧ limit 6 = 0x80000000 := by decide

theorem size_cases (number : Nat) :
    (number < 0x80 ∧ size number = 1) ∨ (0x80 ≤ number ∧ number < 0x800 ∧ size number = 2) ∨
      (0x800 ≤ number ∧ number < 0x10000 ∧ size number = 3) ∨
      (0x10000 ≤ number ∧ number < 0x200000 ∧ size number = 4) ∨
      (0x200000 ≤ number ∧ number < 0x4000000 ∧ size number = 5) ∨ (0x4000000 ≤ number ∧ size number = 6) := by
  obtain ⟨one, two, three, four, five, -⟩ := limit_eq
  rw [size, one, two, three, four, five]
  split_ifs <;> omega

theorem size_bounds (number : Nat) : 1 ≤ size number ∧ size number ≤ 6 := by
  have cases := size_cases number
  omega

theorem lt_limit_size (small : number < 0x80000000) : number < limit (size number) := by
  obtain ⟨one, two, three, four, five, six⟩ := limit_eq
  rcases size_cases number with ⟨upper, same⟩ | ⟨-, upper, same⟩ | ⟨-, upper, same⟩ | ⟨-, upper, same⟩ |
    ⟨-, upper, same⟩ | ⟨-, same⟩
  all_goals
    rw [same]
    omega

theorem size_le (positive : 1 ≤ n) (bound : n ≤ 6) (small : number < limit n) :
    size number ≤ n ∧ number < 0x80000000 := by
  have sizes := size_cases number
  obtain ⟨one, two, three, four, five, six⟩ := limit_eq
  have counts : n = 1 ∨ n = 2 ∨ n = 3 ∨ n = 4 ∨ n = 5 ∨ n = 6 := by omega
  rcases counts with rfl | rfl | rfl | rfl | rfl | rfl <;> omega

theorem size_eq_iff (positive : 2 ≤ n) (bound : n ≤ 6) (small : number < limit n) :
    size number = n ↔ limit (n - 1) ≤ number := by
  have sizes := size_cases number
  obtain ⟨one, two, three, four, five, six⟩ := limit_eq
  have counts : n = 2 ∨ n = 3 ∨ n = 4 ∨ n = 5 ∨ n = 6 := by omega
  rcases counts with rfl | rfl | rfl | rfl | rfl
  all_goals
    simp only [Nat.reduceSub]
    omega

theorem length_shortest (number : Nat) : (shortest number).length = size number := by
  have bounds := size_bounds number
  rw [shortest, form, List.length_cons, length_following]
  omega

/-- Only the number zero is encoded with a zero byte. -/
theorem zero_notMem_shortest (positive : 0 < number) (small : number < 0x80000000) : 0 ∉ shortest number := by
  intro member
  rcases List.mem_cons.mp member with first | inside
  · obtain ⟨least, most⟩ := size_bounds number
    have same := congrArg UInt8.toNat first
    rw [toNat_first least most (lt_limit_size small), UInt8.toNat_zero] at same
    by_cases one : size number = 1
    · rw [one, Nat.pow_zero, Nat.div_one] at same
      omega
    · have marked : 0 < mark (size number) := by
        rw [mark, if_neg one]
        have less : 2 ^ (8 - size number) < 2 ^ 8 := Nat.pow_lt_pow_right (by decide) (by omega)
        omega
      exact absurd (Nat.eq_zero_of_add_eq_zero_right same.symm) (Nat.ne_of_gt marked)
  · have marked := marked_following 0 inside
    contradiction

theorem shortest_injective {other : Nat} (small : number < 0x80000000) (smallOther : other < 0x80000000)
    (same : shortest number = shortest other) : number = other := by
  have sizes := congrArg List.length same
  rw [length_shortest, length_shortest] at sizes
  obtain ⟨positive, bound⟩ := size_bounds number
  have inside := lt_limit_size small
  have insideOther := lt_limit_size smallOther
  rw [← sizes] at insideOther
  have forms : form (size number) number = form (size number) other := by
    rw [shortest, shortest, ← sizes] at same
    exact same
  obtain ⟨first, others⟩ := List.cons.inj forms
  rw [← value_form positive bound inside, first, others, value_form positive bound insideOther]

end Utf8

end Dwadelib
