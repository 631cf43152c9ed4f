import Dwadelib.Character.Sequences

namespace Dwadelib.Character

/-! # How far the decoder gets

A round takes an accepted sequence from the text, or the pointer stays where it is for ever, or the
bytes that the first one announces are not all there.
-/

variable {text rest piece tail written : List UInt8} {pieces : List (List UInt8)} {state : Decoding}
  {unicLen rounds : Nat} {result : Converted}

/-- The sequences for which a unit is written. -/
def Written (piece : List UInt8) : Prop := piece.length = 1 ∨ piece.length = 3

instance : DecidablePred Written := fun piece => inferInstanceAs (Decidable (piece.length = 1 ∨ piece.length = 3))

/-- The unit that is written for a sequence. -/
def unitOf (piece : List UInt8) : List UInt8 :=
  if piece.length = 1 then [0, UInt8.ofNat (storedNumber piece)]
  else if piece.length = 3 then [UInt8.ofNat (storedNumber piece >>> 8), UInt8.ofNat (storedNumber piece)]
  else []

theorem Accepted.free (accepted : Accepted piece) (begins : piece.head? ≠ some 0) : 0 ∉ piece := by
  obtain ⟨first, others, rfl, -⟩ := accepted.announced.begins
  intro member
  rcases List.mem_cons.mp member with zero | inside
  · exact begins (by rw [← zero]; rfl)
  · have marked := (accepted.follows 0 inside).marked
    exact absurd marked (by decide)

/-- A sequence without a zero byte is part of the text before the first one. -/
theorem prefix_before_zero (free : 0 ∉ piece) (before : piece <+: text ++ 0 :: rest) :
    piece <+: text := by
  apply List.prefix_of_prefix_length_le before (List.prefix_append _ _)
  by_contra longer
  have inside : text.length < piece.length := by omega
  have zero : piece[text.length] = 0 := by
    have same := before.getElem inside
    rw [same]
    simp
  exact free (zero ▸ List.getElem_mem inside)

/-- What a round may find. -/
theorem decode_text {first : UInt8} {others : List UInt8} (free : 0 ∉ first :: others) (rest : List UInt8) :
    (∃ piece tail, first :: others = piece ++ tail ∧ Accepted piece ∧ 0 ∉ piece ∧
        encUtf8ToUnicodeOne (first :: others ++ 0 :: rest) =
          some { utfbytes := piece.length, unic := storedNumber piece }) ∨
      (utf8Length first ≤ (first :: others ++ 0 :: rest).length ∧
          encUtf8ToUnicodeOne (first :: others ++ 0 :: rest) = some refused) ∨
        ((first :: others ++ 0 :: rest).length < utf8Length first ∧
          encUtf8ToUnicodeOne (first :: others ++ 0 :: rest) = none) := by
  have begins : first ≠ 0 := fun zero => free (zero ▸ List.mem_cons_self)
  rcases Nat.lt_or_ge (first :: others ++ 0 :: rest).length (utf8Length first) with outside | inside
  · exact .inr (.inr ⟨outside, decode_outside outside⟩)
  · by_cases none : utf8Length first = 0
    · exact .inr (.inl ⟨inside, decode_class_none (encGetUtf8Size_none none)⟩)
    · have announced : Announced utf8Length ((first :: others ++ 0 :: rest).take (utf8Length first)) :=
        announced_take (Nat.pos_of_ne_zero none) inside
      have whole := List.take_append_drop (utf8Length first) (first :: others ++ 0 :: rest)
      have verdict := decode_sequence announced ((first :: others ++ 0 :: rest).drop (utf8Length first))
      rw [whole] at verdict
      rcases verdict with ⟨accepted, taken⟩ | ⟨-, taken⟩
      · have freePiece := accepted.free (by
          obtain ⟨count, length⟩ : ∃ count, utf8Length first = count + 1 := ⟨utf8Length first - 1, by omega⟩
          simpa [length] using begins)
        obtain ⟨tail, split⟩ := prefix_before_zero freePiece (List.take_prefix _ _)
        exact .inl ⟨_, tail, split.symm, accepted, freePiece, taken⟩
      · exact .inr (.inl ⟨inside, taken⟩)

/-- The bytes that are written for some sequences. -/
def unitBytes (pieces : List (List UInt8)) : Nat := 2 * pieces.countP fun piece => Written piece

theorem unitBytes_cons (unicLen : Nat) (piece : List UInt8) (pieces : List (List UInt8)) :
    unicLen + unitBytes (piece :: pieces) = unicLen + unitBytes [piece] + unitBytes pieces := by
  simp only [unitBytes, List.countP_cons, List.countP_nil]
  omega

section Round

variable {first : UInt8} {others : List UInt8} (begins : first ≠ 0)
include begins

theorem decodeRound_taken
    (decoded : encUtf8ToUnicodeOne (first :: others) = some { utfbytes := piece.length, unic := storedNumber piece })
    (follows : first :: others = piece ++ tail) (small : unicLen < 2 ^ 31) :
    decodeRound { p := first :: others, written := written, unicLen := unicLen } =
      if unicLen + unitBytes [piece] < 2 ^ 31 then
        .returned (.next { p := tail, written := written ++ unitOf piece, unicLen := unicLen + unitBytes [piece] })
      else .undefined := by
  have passed : (first :: others).drop piece.length = tail := by rw [follows, List.drop_left]
  by_cases one : piece.length = 1
  · have two : unitBytes [piece] = 2 := by simp [unitBytes, Written, one]
    have unit : unitOf piece = [0, UInt8.ofNat (storedNumber piece)] := if_pos one
    rw [one] at decoded passed
    simp only [decodeRound, List.getElem?_cons_zero, decoded, Outcome.ofOption_some, Outcome.returned_bind,
      if_pos begins, Decoding.write, passed, two, unit]
    split <;> rfl
  · by_cases three : piece.length = 3
    · have two : unitBytes [piece] = 2 := by simp [unitBytes, Written, three]
      have unit : unitOf piece = [UInt8.ofNat (storedNumber piece >>> 8), UInt8.ofNat (storedNumber piece)] := by
        rw [unitOf, if_neg one, if_pos three]
      rw [three] at decoded passed
      simp only [decodeRound, List.getElem?_cons_zero, decoded, Outcome.ofOption_some, Outcome.returned_bind,
        if_pos begins, Decoding.write, passed, two, unit]
      split <;> rfl
    · have zero : unitBytes [piece] = 0 := by simp [unitBytes, Written, one, three]
      have nothing : unitOf piece = [] := by rw [unitOf, if_neg one, if_neg three]
      simp only [decodeRound, List.getElem?_cons_zero, decoded, Outcome.ofOption_some, Outcome.returned_bind,
        if_pos begins, zero, nothing, List.append_nil, Nat.add_zero, if_pos small, Outcome.pure_eq]
      rw [passed]

theorem decodeRound_refused (decoded : encUtf8ToUnicodeOne (first :: others) = some refused) :
    decodeRound { p := first :: others, written := written, unicLen := unicLen } =
      .returned (.next { p := first :: others, written := written, unicLen := unicLen }) := by
  simp only [decodeRound, List.getElem?_cons_zero, decoded, Outcome.ofOption_some, Outcome.returned_bind,
    if_pos begins, refused, List.drop_zero, Outcome.pure_eq]

theorem decodeRound_outside (decoded : encUtf8ToUnicodeOne (first :: others) = none) :
    decodeRound { p := first :: others, written := written, unicLen := unicLen } = .undefined := by
  simp only [decodeRound, List.getElem?_cons_zero, decoded, Outcome.ofOption_some, Outcome.returned_bind,
    if_pos begins, Outcome.ofOption_none, Outcome.undefined_bind]

end Round

/-- A round takes a sequence that is accepted, unless its unit cannot be counted. -/
theorem decodeRound_accepted (accepted : Accepted piece) (free : 0 ∉ piece) (small : unicLen < 2 ^ 31)
    (rest written : List UInt8) :
    decodeRound { p := piece ++ rest, written := written, unicLen := unicLen } =
      if unicLen + unitBytes [piece] < 2 ^ 31 then
        .returned (.next { p := rest, written := written ++ unitOf piece, unicLen := unicLen + unitBytes [piece] })
      else .undefined := by
  obtain ⟨first, others, rfl, -⟩ := accepted.announced.begins
  have begins : first ≠ 0 := fun zero => free (zero ▸ List.mem_cons_self)
  rcases decode_sequence accepted.announced rest with ⟨-, decoded⟩ | ⟨other, -⟩
  · exact decodeRound_taken begins decoded rfl small
  · contradiction

/-- A round takes a sequence, or stays, or ends in what is undefined. -/
theorem decodeRound_text (free : 0 ∉ text) (nonempty : text ≠ []) (small : unicLen < 2 ^ 31)
    (rest written : List UInt8) :
    (∃ piece tail, text = piece ++ tail ∧ Accepted piece ∧ unicLen + unitBytes [piece] < 2 ^ 31 ∧
        decodeRound { p := text ++ 0 :: rest, written := written, unicLen := unicLen } = .returned (.next
          { p := tail ++ 0 :: rest, written := written ++ unitOf piece, unicLen := unicLen + unitBytes [piece] })) ∨
      decodeRound { p := text ++ 0 :: rest, written := written, unicLen := unicLen } =
          .returned (.next { p := text ++ 0 :: rest, written := written, unicLen := unicLen }) ∨
        decodeRound { p := text ++ 0 :: rest, written := written, unicLen := unicLen } = .undefined := by
  obtain ⟨first, others, rfl⟩ := List.exists_cons_of_ne_nil nonempty
  have begins : first ≠ 0 := fun zero => free (zero ▸ List.mem_cons_self)
  rcases decode_text free rest with ⟨piece, tail, split, accepted, freePiece, -⟩ | ⟨-, refused⟩ | ⟨-, outside⟩
  · rw [split, List.append_assoc, decodeRound_accepted accepted freePiece small (tail ++ 0 :: rest) written]
    by_cases fits : unicLen + unitBytes [piece] < 2 ^ 31
    · rw [if_pos fits]
      exact .inl ⟨piece, tail, rfl, accepted, fits, rfl⟩
    · rw [if_neg fits]
      exact .inr (.inr rfl)
  · exact .inr (.inl (decodeRound_refused begins refused))
  · exact .inr (.inr (decodeRound_outside begins outside))

theorem decoding_taken (free : 0 ∉ text) (small : unicLen < 2 ^ 31) {rounds : Nat}
    (returned : whileLoop decodeRound rounds { p := text ++ 0 :: rest, written := written, unicLen := unicLen } =
      .returned result) :
    ∃ pieces, text = pieces.flatten ∧ (∀ piece ∈ pieces, Accepted piece) ∧ unicLen + unitBytes pieces < 2 ^ 31 ∧
      result = { written := written ++ pieces.flatMap unitOf, value := (unicLen + unitBytes pieces : Nat) } := by
  induction rounds generalizing text written unicLen with
  | zero => contradiction
  | succ rounds ih =>
      by_cases empty : text = []
      · have ends : whileLoop decodeRound (rounds + 1)
            { p := text ++ 0 :: rest, written := written, unicLen := unicLen } =
              .returned { written := written, value := unicLen } := by
          rw [empty]
          exact whileLoop_stop rfl
        rw [ends, Outcome.returned.injEq] at returned
        refine ⟨[], empty, fun _ absent => absurd absent List.not_mem_nil, small, ?_⟩
        rw [← returned, List.flatMap_nil, List.append_nil]
        rfl
      · rcases decodeRound_text free empty small rest written with
          ⟨piece, tail, split, accepted, fits, round⟩ | stays | round
        · have freeTail : 0 ∉ tail := fun member => free (split ▸ List.mem_append_right piece member)
          rw [whileLoop_next round] at returned
          obtain ⟨pieces, same, all, counts, outcome⟩ := ih freeTail fits returned
          refine ⟨piece :: pieces, by rw [split, same, List.flatten_cons], List.forall_mem_cons.mpr ⟨accepted, all⟩, ?_, ?_⟩
          · rw [unitBytes_cons unicLen piece pieces]
            exact counts
          · rw [outcome, unitBytes_cons unicLen piece pieces, List.flatMap_cons, List.append_assoc]
        · rw [whileLoop_stuck stays] at returned
          contradiction
        · rw [whileLoop_undefined round] at returned
          contradiction

theorem decoding_of_pieces (accepted : ∀ piece ∈ pieces, Accepted piece) (free : 0 ∉ pieces.flatten)
    (small : unicLen + unitBytes pieces < 2 ^ 31) :
    whileLoop decodeRound (pieces.length + 1)
        { p := pieces.flatten ++ 0 :: rest, written := written, unicLen := unicLen } =
      .returned { written := written ++ pieces.flatMap unitOf, value := (unicLen + unitBytes pieces : Nat) } := by
  induction pieces generalizing written unicLen with
  | nil =>
      rw [List.flatMap_nil, List.append_nil]
      exact whileLoop_stop rfl
  | cons piece pieces ih =>
      obtain ⟨here, later⟩ := List.forall_mem_cons.mp accepted
      rw [List.flatten_cons, List.mem_append, not_or] at free
      rw [unitBytes_cons unicLen piece pieces] at small
      have smaller : unicLen < 2 ^ 31 := by omega
      have fits : unicLen + unitBytes [piece] < 2 ^ 31 := by omega
      have round := decodeRound_accepted here free.1 smaller (pieces.flatten ++ 0 :: rest) written
      rw [if_pos fits] at round
      rw [List.flatten_cons, List.append_assoc, List.length_cons, whileLoop_next round, ih later free.2 small,
        List.flatMap_cons, List.append_assoc, unitBytes_cons unicLen piece pieces]

/-- The decoder comes to the end of a text of accepted sequences, as long as its units can be counted,
and of no other one. -/
theorem decoding_ends_iff (free : 0 ∉ text) (rest : List UInt8) :
    (∃ rounds result, utf8ToUnicode rounds (text ++ 0 :: rest) = .returned result) ↔
      ∃ pieces, text = pieces.flatten ∧ (∀ piece ∈ pieces, Accepted piece) ∧ unitBytes pieces < 2 ^ 31 := by
  constructor
  · intro ends
    obtain ⟨rounds, result, returned⟩ := ends
    obtain ⟨pieces, same, accepted, counts, -⟩ := decoding_taken free (by decide) returned
    exact ⟨pieces, same, accepted, by omega⟩
  · intro taken
    obtain ⟨pieces, rfl, accepted, counts⟩ := taken
    exact ⟨pieces.length + 1, _, decoding_of_pieces accepted free (by omega)⟩

theorem decoding_ends_two_letters : ∃ rounds result, utf8ToUnicode rounds ([0x61, 0x62] ++ 0 :: []) = .returned result := by
  have letter : ∀ byte : UInt8, utf8Length byte = 1 → Accepted [byte] := fun byte length =>
    ⟨⟨byte, [], rfl, length.symm⟩, fun _ absent => absurd absent List.not_mem_nil⟩
  have accepted : ∀ piece ∈ [[0x61], [0x62]], Accepted piece :=
    List.forall_mem_cons.mpr ⟨letter 0x61 rfl, List.forall_mem_singleton.mpr (letter 0x62 rfl)⟩
  exact (decoding_ends_iff (by decide) []).mpr ⟨_, rfl, accepted, by decide⟩

/-- A byte of the middle of a character is never passed. -/
theorem stray_byte_never_ends : ¬ ∃ rounds result, utf8ToUnicode rounds [0x80, 0] = .returned result := by
  intro ends
  obtain ⟨rounds, result, returned⟩ := ends
  have stays : decodeRound { p := [0x80, 0], written := [], unicLen := 0 } =
      .returned (.next { p := [0x80, 0], written := [], unicLen := 0 }) := by
    decide
  rw [utf8ToUnicode, whileLoop_stuck stays] at returned
  contradiction

/-- The text ends its array with a zero byte, so that nothing is read behind it. -/
def ReadsInside (text : List UInt8) : Prop :=
  ∀ rounds state, state ∈ visited decodeRound rounds { p := text ++ [0], written := [], unicLen := 0 } →
    ∃ byte, state.p[0]? = some byte ∧ (byte ≠ 0 → encUtf8ToUnicodeOne state.p ≠ none)

/-- Where the decoder gets, the first byte announces no more bytes than there are with the zero byte. -/
def Uncut (text : List UInt8) : Prop :=
  ∀ pieces first others, text = pieces.flatten ++ first :: others → (∀ piece ∈ pieces, Accepted piece) →
    unitBytes pieces < 2 ^ 31 → utf8Length first ≤ others.length + 2

theorem unitBytes_append {more : List (List UInt8)} : unitBytes (pieces ++ more) = unitBytes pieces + unitBytes more := by
  rw [unitBytes, List.countP_append, Nat.mul_add]
  rfl

theorem visited_of_pieces (accepted : ∀ piece ∈ pieces, Accepted piece) (free : 0 ∉ pieces.flatten)
    (small : unicLen + unitBytes pieces < 2 ^ 31) (rest written : List UInt8) :
    ∃ units, { p := rest, written := units, unicLen := unicLen + unitBytes pieces } ∈
      visited decodeRound (pieces.length + 1)
        { p := pieces.flatten ++ rest, written := written, unicLen := unicLen } := by
  induction pieces generalizing written unicLen with
  | nil => exact ⟨written, mem_visited_self⟩
  | cons piece pieces ih =>
      obtain ⟨here, later⟩ := List.forall_mem_cons.mp accepted
      rw [List.flatten_cons, List.mem_append, not_or] at free
      rw [unitBytes_cons unicLen piece pieces] at small
      have smaller : unicLen < 2 ^ 31 := by omega
      have fits : unicLen + unitBytes [piece] < 2 ^ 31 := by omega
      have round := decodeRound_accepted here free.1 smaller (pieces.flatten ++ rest) written
      rw [if_pos fits] at round
      rw [unitBytes_cons unicLen piece pieces, List.flatten_cons, List.append_assoc, List.length_cons,
        visited_next round]
      obtain ⟨more, passed⟩ := ih later free.2 small (written ++ unitOf piece)
      exact ⟨more, List.mem_cons_of_mem _ passed⟩

/-- Where the decoder is after some sequences. -/
structure Reached (text : List UInt8) (state : Decoding) : Prop where
  split : ∃ pieces tail, text = pieces.flatten ++ tail ∧ state.p = tail ++ [0] ∧ (∀ piece ∈ pieces, Accepted piece) ∧
    unitBytes pieces < 2 ^ 31 ∧ state.unicLen = unitBytes pieces

theorem Reached.next {after : Decoding} (free : 0 ∉ text) (reached : Reached text state)
    (iterated : decodeRound state = .returned (.next after)) : Reached text after := by
  obtain ⟨pieces, tail, same, pointer, accepted, small, counted⟩ := reached.split
  have here : state = { p := tail ++ [0], written := state.written, unicLen := unitBytes pieces } := by
    rw [← pointer, ← counted]
  rw [here] at iterated
  have freeTail : 0 ∉ tail := fun member => free (same ▸ List.mem_append_right _ member)
  by_cases empty : tail = []
  · rw [empty] at iterated
    cases iterated
  · rcases decodeRound_text freeTail empty small [] state.written with
      ⟨piece, others, split, taken, fits, round⟩ | stays | undefined
    · rw [round] at iterated
      cases iterated
      refine ⟨pieces ++ [piece], others, ?_, rfl, ?_, ?_, ?_⟩
      · rw [same, split, List.flatten_append, List.flatten_singleton, List.append_assoc]
      · intro other member
        rcases List.mem_append.mp member with earlier | last
        · exact accepted other earlier
        · rw [List.mem_singleton.mp last]
          exact taken
      · rw [unitBytes_append]
        exact fits
      · rw [unitBytes_append]
    · rw [stays] at iterated
      cases iterated
      exact ⟨pieces, tail, same, rfl, accepted, small, rfl⟩
    · rw [undefined] at iterated
      contradiction

theorem readsInside_iff_uncut (free : 0 ∉ text) : ReadsInside text ↔ Uncut text := by
  constructor
  · intro inside pieces first others same accepted small
    have freePieces : 0 ∉ pieces.flatten := fun member => free (same ▸ List.mem_append_left _ member)
    have begins : first ≠ 0 := fun zero =>
      free (same ▸ List.mem_append_right _ (zero ▸ List.mem_cons_self))
    have counts : 0 + unitBytes pieces < 2 ^ 31 := by omega
    obtain ⟨units, passed⟩ := visited_of_pieces accepted freePieces counts (first :: others ++ [0]) []
    rw [← List.append_assoc, ← same] at passed
    obtain ⟨byte, found, reads⟩ := inside _ _ passed
    obtain rfl : first = byte := Option.some.inj found
    by_contra announced
    have length : (first :: (others ++ [0])).length = others.length + 2 := by simp
    have outside : (first :: (others ++ [0])).length < utf8Length first := by omega
    exact reads begins (decode_outside outside)
  · intro uncut rounds state passed
    have start : Reached text { p := text ++ [0], written := [], unicLen := 0 } :=
      ⟨[], text, rfl, rfl, fun _ absent => absurd absent List.not_mem_nil, by decide, rfl⟩
    have kept : ∀ state after, Reached text state → decodeRound state = .returned (.next after) →
        Reached text after := fun state after reached iterated => reached.next free iterated
    obtain ⟨pieces, tail, same, pointer, accepted, small, -⟩ := (visited_invariant kept start passed).split
    rw [pointer]
    cases tail with
    | nil => exact ⟨0, rfl, fun nonzero => absurd rfl nonzero⟩
    | cons first others =>
        refine ⟨first, rfl, fun _ outside => ?_⟩
        have freeTail : 0 ∉ first :: others := fun member => free (same ▸ List.mem_append_right _ member)
        have room := uncut pieces first others same accepted small
        rcases decode_text freeTail [] with ⟨_, _, -, -, -, taken⟩ | ⟨-, taken⟩ | ⟨short, -⟩
        · rw [outside] at taken
          contradiction
        · rw [outside] at taken
          contradiction
        · rw [List.length_append, List.length_cons, List.length_singleton] at short
          omega

end Dwadelib.Character
