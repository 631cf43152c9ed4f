import Dwadelib.AmrDuration
import Dwadelib.Announced
import Mathlib.Tactic.Common

namespace Dwadelib.AmrDuration

/-! # Which frames are counted

The first byte of a frame tells how long the frame is, so that the frames of a file are cut off one
after the other. Those with one bit of the first byte are good; those with another one are counted.
-/

variable {content rest : List UInt8} {header : UInt8} {pos rounds fuel : Nat} {duration : Int}

def frameType (header : UInt8) : Nat := header.toNat / 8 % 16

def frameSize (header : UInt8) : Nat := amrFrameSize.getD (frameType header) 0

/-- The first bytes of the frames of a text. -/
def headersFrom (fuel : Nat) (text : List UInt8) : List UInt8 := (cut frameSize fuel text).filterMap List.head?

/-- The first bytes of the frames that are met. -/
def headers (content : List UInt8) : List UInt8 := headersFrom content.length (content.drop 6)

/-- The quality bit. -/
def Good (header : UInt8) : Prop := header &&& 0x04 ≠ 0

/-- The lowest bit. -/
def Low (header : UInt8) : Prop := header &&& 0x01 ≠ 0

instance : DecidablePred Good := fun header => inferInstanceAs (Decidable (header &&& 0x04 ≠ 0))

instance : DecidablePred Low := fun header => inferInstanceAs (Decidable (header &&& 0x01 ≠ 0))

theorem frameType_lt : frameType header < 16 := Nat.mod_lt _ (by decide)

theorem frameSize_positive : 0 < frameSize header := by
  have sizes : ∀ type, type < 16 → 0 < amrFrameSize.getD type 0 := by decide
  exact sizes _ frameType_lt

/-- The table is left by no type. -/
theorem frameSize_found : amrFrameSize[frameType header]? = some (frameSize header) := by
  have length : frameType header < amrFrameSize.length := Nat.lt_of_lt_of_le frameType_lt (by decide)
  rw [frameSize, List.getD_eq_getElem?_getD, List.getElem?_eq_getElem length, Option.getD_some]

theorem toNat_type : ((header >>> 3) &&& 0x0f).toNat = frameType header := by
  have masked : header.toNat / 8 &&& 15 = header.toNat / 8 % 16 := Nat.and_two_pow_sub_one_eq_mod _ 4
  simp only [UInt8.toNat_and, UInt8.toNat_shiftRight, UInt8.reduceToNat, Nat.reduceMod, Nat.shiftRight_eq_div_pow,
    Nat.reducePow, masked, frameType]

theorem tocCounts_iff : tocCounts header ↔ Low header := by
  rw [tocCounts, decide_eq_true_eq]
  exact Iff.rfl

theorem frameRound_next (inside : pos < content.length) :
    frameRound (content ++ rest) content.length { pos := pos, duration := duration } =
      .returned (.next {
        pos := pos + frameSize content[pos]
        duration := if Low content[pos] then duration + 20 else duration }) := by
  have toc : (content ++ rest)[pos]? = some content[pos] := by
    rw [List.getElem?_append_left inside, List.getElem?_eq_getElem inside]
  have small : ¬ (content[pos] >>> 3) &&& 0x0f ≥ 16 := by
    rw [ge_iff_le, UInt8.le_iff_toNat_le, toNat_type]
    exact Nat.not_le_of_lt frameType_lt
  simp only [frameRound, if_pos inside, toc, Outcome.ofOption_some, Outcome.returned_bind, if_neg small, toNat_type,
    frameSize_found, tocCounts_iff, Outcome.pure_eq]

theorem headersFrom_cons {others : List UInt8} :
    headersFrom (fuel + 1) (header :: others) = header :: headersFrom fuel ((header :: others).drop (frameSize header)) := by
  obtain ⟨count, size⟩ : ∃ count, frameSize header = count + 1 :=
    Nat.exists_eq_succ_of_ne_zero (Nat.ne_of_gt frameSize_positive)
  rw [headersFrom, cut, size, List.take_succ_cons, List.filterMap_cons]
  rfl

theorem length_headersFrom_le {text : List UInt8} : (headersFrom fuel text).length ≤ fuel :=
  Nat.le_trans (List.length_filterMap_le _ _) length_cut_le

theorem walk_counts (enough : content.length - pos < rounds) (most : content.length - pos ≤ fuel) :
    whileLoop (frameRound (content ++ rest) content.length) rounds { pos := pos, duration := duration } =
      .returned (CInt.convert (duration + 20 * (headersFrom fuel (content.drop pos)).countP fun header => Low header)) := by
  induction rounds generalizing pos duration fuel with
  | zero => contradiction
  | succ rounds ih =>
      by_cases inside : pos < content.length
      · obtain ⟨fuel, rfl⟩ : ∃ fewer, fuel = fewer + 1 := ⟨fuel - 1, by omega⟩
        have positive : 0 < frameSize content[pos] := frameSize_positive
        have here : content.drop pos = content[pos] :: content.drop (pos + 1) := List.drop_eq_getElem_cons inside
        have later : (content.drop pos).drop (frameSize content[pos]) = content.drop (pos + frameSize content[pos]) := by
          rw [List.drop_drop]
        have further : content.length - (pos + frameSize content[pos]) < rounds := by omega
        have fewer : content.length - (pos + frameSize content[pos]) ≤ fuel := by omega
        rw [whileLoop_next (frameRound_next inside), ih further fewer, here, headersFrom_cons, ← here, later]
        congr 2
        by_cases low : Low content[pos]
        · rw [if_pos low, List.countP_cons_of_pos (by simpa using low)]
          omega
        · rw [if_neg low, List.countP_cons_of_neg (by simpa using low)]
      · have ends : content.drop pos = [] := List.drop_eq_nil_of_le (Nat.le_of_not_lt inside)
        have none : headersFrom fuel [] = [] := by cases fuel <;> rfl
        have stops : frameRound (content ++ rest) content.length { pos := pos, duration := duration } =
            .returned (.stop (CInt.convert duration)) := by
          rw [frameRound, if_neg inside]
          rfl
        rw [whileLoop_stop stops, ends, none, List.countP_nil, Int.natCast_zero, Int.mul_zero, Int.add_zero]

/-- Whatever is behind the content, the frames with the lowest bit are counted. -/
theorem getDuration_low (small : content.length ≤ 20480) (rest : List UInt8) :
    getDuration (content ++ rest) content.length =
      .returned (20 * (headers content).countP (fun header => Low header) : Nat) := by
  have length : sizeT content.length = content.length := by
    rw [sizeT]
    omega
  have enough : content.length - 6 < (content ++ rest).length + 1 := by
    rw [List.length_append]
    omega
  have counts : (headers content).countP (fun header => Low header) ≤ content.length :=
    Nat.le_trans List.countP_le_length length_headersFrom_le
  have most : content.length - 6 ≤ content.length := Nat.sub_le _ _
  have converted : CInt.convert (20 * (headers content).countP (fun header => Low header) : Nat) = _ :=
    CInt.convert_natCast (by omega)
  rw [getDuration, length, walk_counts enough most, Int.zero_add, ← headers, ← converted, Int.natCast_mul]
  rfl

theorem countP_only {α : Type} (p q : α → Prop) [DecidablePred p] [DecidablePred q] (values : List α) :
    values.countP (fun value => p value) + values.countP (fun value => q value ∧ ¬ p value) =
      values.countP (fun value => q value) + values.countP (fun value => p value ∧ ¬ q value) := by
  induction values with
  | nil => rfl
  | cons value values ih =>
      simp only [List.countP_cons, decide_eq_true_eq]
      by_cases one : p value <;> by_cases other : q value <;> simp only [one, other, not_true_eq_false,
        not_false_eq_true, and_true, and_false, if_true, if_false] <;> omega

/-- The good frames are counted where as many frames have only the lowest bit as have only the quality
bit. -/
theorem duration_counts_good_iff (small : content.length ≤ 20480) (rest : List UInt8) :
    getDuration (content ++ rest) content.length =
        .returned (20 * (headers content).countP (fun header => Good header) : Nat) ↔
      (headers content).countP (fun header => Low header ∧ ¬ Good header) =
        (headers content).countP (fun header => Good header ∧ ¬ Low header) := by
  have only := countP_only Low Good (headers content)
  rw [getDuration_low small rest, Outcome.returned.injEq, Int.ofNat_inj]
  omega

theorem duration_counts_both_bits :
    getDuration ([0x23, 0x21, 0x41, 0x4D, 0x52, 0x0A, 0x3D] ++ [0, 0, 0]) 7 = .returned 20 :=
  have small : [0x23, 0x21, 0x41, 0x4D, 0x52, 0x0A, (0x3D : UInt8)].length ≤ 20480 := by decide
  (duration_counts_good_iff small [0, 0, 0]).mpr (by decide)

/-- A frame with the quality bit and without the lowest one is not counted. -/
theorem good_frame_not_counted :
    getDuration [0x23, 0x21, 0x41, 0x4D, 0x52, 0x0A, 0x3C] 7 = .returned 0 ∧
      (headers [0x23, 0x21, 0x41, 0x4D, 0x52, 0x0A, 0x3C]).countP (fun header => Good header) = 1 := by
  decide

end Dwadelib.AmrDuration
