import Dwadelib.Dram.Serving
import Dwadelib.FileView.Lines
import Dwadelib.FileView.Navigation

namespace Dwadelib.FileView

/-! # What is drawn

The buffer holds what the file has from the position on and 0xFF beyond its end, however small the pieces are
in which the file is read. So whatever keys led there, the screen shows the file at the position.
-/

open Seekable

variable {σ : Type} {file : File σ} {place : σ → Nat} {content : Nat → UInt8} {size first n : Nat} {state : σ}
  {filling : Filling σ} {format : Nat} {view : View}
  {keys : List Nat}

/-- So many bytes have been read. -/
structure Filled (place : σ → Nat) (content : Nat → UInt8) (size first n : Nat) (filling : Filling σ) : Prop where
  reached : place filling.state = first + n
  offset : filling.place = n
  toRead : filling.toRead = (BUFSIZE : Int) - n
  buffer : filling.buffer = overlay (List.replicate BUFSIZE 0xFF) 0 (bytesAt content first n)
  room : n ≤ BUFSIZE
  inside : first + n ≤ size

theorem fillRound_filled (serves : Serves file place content size) (filled : Filled place content size first n filling) :
    (∃ result, fillRound file filling = .returned (.stop result) ∧ Filled place content size first n result ∧
      (n = BUFSIZE ∨ first + n = size)) ∨
    ∃ more after, fillRound file filling = .returned (.next after) ∧ 0 < more ∧
      Filled place content size first (n + more) after := by
  obtain ⟨reached, offset, toRead, buffer, room, inside⟩ := filled
  by_cases enough : n = BUFSIZE
  · refine .inl ⟨filling, ?_, ⟨reached, offset, toRead, buffer, room, inside⟩, .inl enough⟩
    rw [fillRound, if_neg (by omega)]
    rfl
  · have asked : 0 < filling.toRead := by omega
    by_cases ended : first + n = size
    · obtain ⟨after, nothing, last⟩ := serves.ends filling.state filling.toRead.toNat (reached.trans ended)
      refine .inl ⟨{ filling with state := after }, ?_, ⟨?_, offset, toRead, buffer, room, inside⟩, .inr ended⟩
      · rw [fillRound, if_pos asked, nothing]
        rfl
      · exact last.trans ended.symm
    · have before : place filling.state < size := by omega
      obtain ⟨after, more, positive, most, fits, given, further⟩ :=
        serves.gives filling.state filling.toRead.toNat before (by omega)
      refine .inr ⟨more, {
        state := after
        place := filling.place + more
        toRead := filling.toRead - more
        buffer := overlay filling.buffer filling.place (bytesAt content (place filling.state) more) },
        ?_, positive, ?_, ?_, ?_, ?_, ?_, ?_⟩
      · have some_ : ¬ ((more : Int) ≤ 0) := by omega
        rw [fillRound, if_pos asked, given]
        dsimp only
        rw [if_neg some_, Int.toNat_natCast]
        rfl
      · show place after = _
        omega
      · show filling.place + more = n + more
        omega
      · show filling.toRead - (more : Int) = (BUFSIZE : Int) - (n + more : Nat)
        omega
      · have fits : 0 + (bytesAt content first n).length + (bytesAt content (first + n) more).length ≤
            (List.replicate BUFSIZE (0xFF : UInt8)).length := by
          rw [length_bytesAt, length_bytesAt, List.length_replicate]
          omega
        have joined := overlay_overlay fits
        rw [length_bytesAt, Nat.zero_add] at joined
        show overlay filling.buffer filling.place (bytesAt content (place filling.state) more) = _
        rw [buffer, offset, reached, joined, bytesAt_add]
      · omega
      · omega

theorem fill_filled (serves : Serves file place content size) (within : first ≤ size) (begun : place state = first) :
    ∃ filling, fill file state = .returned filling ∧
      filling.buffer = bytesAt content first (min BUFSIZE (size - first)) ++
        List.replicate (BUFSIZE - (size - first)) 0xFF := by
  have start : Filled place content size first 0
      { state := state, place := 0, toRead := BUFSIZE, buffer := List.replicate BUFSIZE 0xFF } := by
    refine ⟨begun, rfl, (Int.sub_zero _).symm, ?_, Nat.zero_le _, within⟩
    rw [bytesAt_zero, overlay_nil]
  have rounds : ∀ filling, (∃ n, Filled place content size first n filling) →
      (∃ result, fillRound file filling = .returned (.stop result) ∧
        ∃ n, Filled place content size first n result ∧ (n = BUFSIZE ∨ first + n = size)) ∨
      ∃ after, fillRound file filling = .returned (.next after) ∧ (∃ n, Filled place content size first n after) ∧
        after.toRead.toNat < filling.toRead.toNat := by
    intro filling holds
    obtain ⟨n, filled⟩ := holds
    rcases fillRound_filled serves filled with ⟨result, stopped, done⟩ | ⟨more, after, goes, positive, done⟩
    · exact .inl ⟨result, stopped, n, done⟩
    · refine .inr ⟨after, goes, ⟨n + more, done⟩, ?_⟩
      have before := filled.toRead
      have behind := done.toRead
      have room := done.room
      omega
  obtain ⟨filling, filled, n, done, ended⟩ :=
    whileLoop_total (fun filling : Filling σ => filling.toRead.toNat) rounds ⟨0, start⟩ (Nat.lt_succ_self BUFSIZE)
  refine ⟨filling, filled, ?_⟩
  have room := done.room
  have inside := done.inside
  have count : n = min BUFSIZE (size - first) := by omega
  rw [done.buffer, overlay_zero, length_bytesAt, List.drop_replicate, ← count]
  have left : BUFSIZE - n = BUFSIZE - (size - first) := by omega
  rw [left]

/-- The bytes of the file, and what is shown beyond its end. -/
def beyond (content : Nat → UInt8) (size k : Nat) : UInt8 := if k < size then content k else 0xFF

def screenLine (format : Nat) (shown : Nat → UInt8) (location : Nat) : List UInt8 :=
  lineText format location (bytesAt shown location BUFWIDE)

def screen (format : Nat) (shown : Nat → UInt8) (first count : Nat) : List (List UInt8) :=
  (List.range count).map fun r => screenLine format shown (first + BUFWIDE * r)

theorem fill_beyond (serves : Serves file place content size) (within : first ≤ size) (begun : place state = first) :
    ∃ filling, fill file state = .returned filling ∧ filling.buffer = bytesAt (beyond content size) first BUFSIZE := by
  obtain ⟨filling, filled, buffer⟩ := fill_filled serves within begun
  refine ⟨filling, filled, ?_⟩
  have parts : BUFSIZE = min BUFSIZE (size - first) + (BUFSIZE - (size - first)) := by omega
  have front : bytesAt (beyond content size) first (min BUFSIZE (size - first)) =
      bytesAt content first (min BUFSIZE (size - first)) :=
    List.map_congr_left fun k member => if_pos (by
      have before := List.mem_range.mp member
      omega)
  have behind : bytesAt (beyond content size) (first + min BUFSIZE (size - first)) (BUFSIZE - (size - first)) =
      List.replicate (BUFSIZE - (size - first)) 0xFF := by
    refine List.eq_replicate_iff.mpr ⟨length_bytesAt, fun byte member => ?_⟩
    obtain ⟨k, before, rfl⟩ := List.mem_map.mp member
    have some_ := List.mem_range.mp before
    exact if_neg (by omega)
  rw [buffer, ← front, ← behind, ← bytesAt_add, ← parts]

theorem drawLines_eq (shown : Nat → UInt8) {count : Nat} (known : format ∈ [1, 2, 4, 8, 16])
    (small : first + BUFWIDE * count < 16 ^ 13 + BUFWIDE) :
    drawLines format (bytesAt shown first (BUFWIDE * count)) count first = some (screen format shown first count) := by
  induction count generalizing first with
  | zero => rfl
  | succ count ih =>
      rw [Nat.mul_succ] at small
      have room : first < 16 ^ 13 := by omega
      have wide : (16 : Nat) ^ 13 < 2 ^ 63 - 16 := by decide
      have sixteen : BUFWIDE = 16 := rfl
      have next : longLong ((first : Int) + BUFWIDE) = some ((first + BUFWIDE : Nat) : Int) :=
        longLong_eq (by omega) (by omega)
      have later : first + BUFWIDE + BUFWIDE * count < 16 ^ 13 + BUFWIDE := by omega
      have split : BUFWIDE * (count + 1) = BUFWIDE + BUFWIDE * count := by rw [Nat.mul_succ, Nat.add_comm]
      rw [drawLines, split, bytesAt_add, List.take_left' length_bytesAt, List.drop_left' length_bytesAt,
        outline_eq room length_bytesAt known, Option.bind_eq_bind, Option.bind_some, next, Option.bind_eq_bind,
        Option.bind_some, ih later, Option.bind_eq_bind, Option.bind_some]
      rw [screen, screen, List.range_succ_eq_map, List.map_cons, List.map_map]
      refine congrArg some (congrArg₂ List.cons rfl (List.map_congr_left fun r _ => ?_))
      rw [Function.comp_apply, Nat.mul_succ, Nat.add_comm (BUFWIDE * r), Nat.add_assoc]

theorem position_within (inside : Inside size view) : view.position.toNat ≤ size := by
  have lower := inside.lower
  have upper := inside.upper
  unfold posmax paragraph posmin at upper
  split at upper <;> omega

theorem draw_screen (serves : Serves file place content size) (small : size ≤ 16 ^ 13) (inside : Inside size view)
    (state : σ) : ∃ drawn, draw file view.position view.format state = .returned drawn ∧
      drawn.lines = screen view.format (beyond content size) view.position.toNat BUFHIGH := by
  have within := position_within inside
  have whole : view.position = view.position.toNat := (Int.toNat_of_nonneg inside.lower).symm
  obtain ⟨moved, sought, begun⟩ := serves.seeks state view.position.toNat within
  obtain ⟨filling, filled, buffer⟩ := fill_beyond serves within begun
  have last : view.position.toNat + BUFWIDE * BUFHIGH < 16 ^ 13 + BUFWIDE := by
    have upper := inside.upper
    have sixteen : BUFWIDE = 16 := rfl
    have square : BUFWIDE * BUFHIGH = 256 := rfl
    unfold posmax paragraph posmin at upper
    split at upper <;> omega
  have lines := drawLines_eq (beyond content size) inside.format last
  refine ⟨{ state := filling.state, lines := screen view.format (beyond content size) view.position.toNat BUFHIGH }, ?_, rfl⟩
  have square : BUFWIDE * BUFHIGH = BUFSIZE := rfl
  rw [square, ← buffer] at lines
  rw [draw, whole, sought]
  dsimp only
  rw [filled, Outcome.returned_bind, lines]
  rfl

/-- Whatever keys led there, all sixteen lines are drawn, and each of them can be the line of one place only and of
one row of bytes: those that the file has there. -/
theorem keys_shown (serves : Serves file place content size) (small : size ≤ 16 ^ 13)
    (reached : Run.run (press size) start keys = some view) (state : σ) :
    ∃ drawn, draw file view.position view.format state = .returned drawn ∧ drawn.lines.length = BUFHIGH ∧
      ∀ r < BUFHIGH, ∃ line, drawn.lines[r]? = some line ∧ line.length = 78 ∧
        ∀ location row, location < 16 ^ 13 → row.length = BUFWIDE →
          (line = lineText view.format (location : Nat) row ↔
            (location : Int) = view.position + BUFWIDE * r ∧ row = bytesAt (beyond content size) location BUFWIDE) := by
  have inside := reached_inside (by omega) reached
  obtain ⟨drawn, returned, lines⟩ := draw_screen serves small inside state
  refine ⟨drawn, returned, by rw [lines, screen, List.length_map, List.length_range], fun r before => ?_⟩
  have near : view.position.toNat + BUFWIDE * r < 16 ^ 13 := by
    have upper := inside.upper
    have sixteen : BUFWIDE = 16 := rfl
    have high : BUFHIGH = 16 := rfl
    unfold posmax paragraph posmin at upper
    rw [sixteen]
    split at upper <;> omega
  have shown : drawn.lines[r]? =
      some (screenLine view.format (beyond content size) (view.position.toNat + BUFWIDE * r)) := by
    rw [lines, screen, List.getElem?_map, List.getElem?_range before, Option.map_some]
  have lower := inside.lower
  refine ⟨_, shown, length_lineText near length_bytesAt inside.format, fun location row low sized => ?_⟩
  constructor
  · intro same
    obtain ⟨there, bytes⟩ := lineText_injective near low length_bytesAt sized inside.format same
    rw [← there]
    exact ⟨by omega, bytes.symm⟩
  · intro same
    obtain ⟨there, rfl⟩ := same
    have whole : location = view.position.toNat + BUFWIDE * r := by omega
    rw [whole]
    rfl

def twoPages : Dram.Memory := { numPhyspages := 2, present := fun frame => frame < 2, bytes := fun k => .ofNat k }

/-- Two pages of memory as the driver gives them, three keys after the beginning: words, one page and one line down. -/
theorem keys_shown_memory :
    ∃ drawn, draw (Dram.device twoPages) 272 2 0 = .returned drawn ∧
      drawn.lines.length = BUFHIGH ∧
      ∀ r < BUFHIGH, ∃ line, drawn.lines[r]? = some line ∧ line.length = 78 ∧
        ∀ location row, location < 16 ^ 13 → row.length = BUFWIDE →
          (line = lineText 2 (location : Nat) row ↔
            (location : Int) = 272 + BUFWIDE * r ∧
              row = bytesAt (beyond (fun k => .ofNat k) 8192) location BUFWIDE) := by
  have served : Serves (Dram.device twoPages) id (fun k => .ofNat k) 8192 :=
    Dram.device_serves (by decide) fun frame below => decide_eq_true below
  have reached : Run.run (press (8192 : Nat)) start [0x57, KB_PGDN, KB_LNDN] =
      some { position := 272, pageincr := 256, format := 2, done := false, mode := .browsing } := by decide
  exact keys_shown served (by decide) reached 0

end Dwadelib.FileView
