import Dwadelib.AmrDuration.Frames

namespace Dwadelib.AmrDuration

/-! # Where the walk over the frames goes

The walk ends where the number of bytes that were read ends. The number that `read` returns for an error
becomes the largest `size_t`.
-/

variable {content : List UInt8} {len : Int}

/-- The states in which the rounds of the walk begin. -/
def walks (fileContent : List UInt8) (len : Int) : List Walk :=
  visited (frameRound fileContent (sizeT len)) (fileContent.length + 1) { pos := 6, duration := 0 }

/-- The index of `AMR_FRAME_SIZE` that a first byte leads to. -/
def tableIndex (toc : UInt8) : Nat :=
  let toc := (toc >>> 3) &&& 0x0f
  let toc := if toc ≥ 16 then 15 else toc
  toc.toNat

/-- The walk ends, finds all sizes in the table and looks only at bytes that were read. -/
structure WalksInside (fileContent : List UInt8) (len : Int) : Prop where
  ends : ∃ duration, getDuration fileContent len = .returned duration
  found : ∀ walk ∈ walks fileContent len, walk.pos < sizeT len →
    ∀ toc, fileContent[walk.pos]? = some toc → tableIndex toc < amrFrameSize.length
  reads : ∀ walk ∈ walks fileContent len, walk.pos < sizeT len → walk.pos < len.toNat

theorem tableIndex_lt (toc : UInt8) : tableIndex toc < amrFrameSize.length := by
  have small : ¬ (toc >>> 3) &&& 0x0f ≥ 16 := by
    rw [ge_iff_le, UInt8.le_iff_toNat_le, toNat_type]
    exact Nat.not_le_of_lt frameType_lt
  have table : amrFrameSize.length = 17 := rfl
  simp only [tableIndex, if_neg small, toNat_type, table]
  exact Nat.lt_succ_of_lt frameType_lt

theorem walksInside_of_read (whole : content.length = 20480) (read : 0 ≤ len) (most : len ≤ 20480) :
    WalksInside content len := by
  have size : sizeT len = len.toNat := by
    rw [sizeT]
    omega
  have front : (content.take len.toNat).length = len.toNat := by
    rw [List.length_take]
    omega
  have length : ((content.take len.toNat).length : Int) = len := by omega
  have few : (content.take len.toNat).length ≤ 20480 := by omega
  have returned := getDuration_low few (content.drop len.toNat)
  rw [List.take_append_drop, length] at returned
  refine ⟨⟨_, returned⟩, fun _ _ _ toc _ => tableIndex_lt toc, fun _ _ before => ?_⟩
  rwa [size] at before

/-- The byte behind the first six is looked at even if none was read. -/
theorem walks_outside : ¬ WalksInside content (-1) := by
  intro inside
  have begun : { pos := 6, duration := 0 } ∈ walks content (-1) := mem_visited_self
  have before := inside.reads _ begun (by decide)
  contradiction

/-- The walk stays inside of what was read unless `read` failed. -/
theorem walk_inside_iff (whole : content.length = 20480) (least : -1 ≤ len) (most : len ≤ 20480) :
    WalksInside content len ↔ 0 ≤ len := by
  constructor
  · intro inside
    by_contra negative
    obtain rfl : len = -1 := by omega
    exact walks_outside inside
  · intro read
    exact walksInside_of_read whole read most

theorem walk_inside_empty : WalksInside (List.replicate 20480 0) 0 ↔ (0 : Int) ≤ 0 :=
  walk_inside_iff List.length_replicate (by decide) (by decide)

theorem failed_read_outside : ¬ WalksInside (List.replicate 20480 0) (-1) := walks_outside

end Dwadelib.AmrDuration
