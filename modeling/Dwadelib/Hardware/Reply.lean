import Dwadelib.Hardware
import Mathlib.Tactic.Common

namespace Dwadelib.Hardware

/-! # The reply of the device

The device tells how long its page is. The array of the reply has no room for all of these lengths.
-/

variable {cells serialNo : List UInt8} {start count first last fuel : Nat} {allowed : Nat → Prop} {span : Span}
  {disk : Disk}

theorem look_yields {place : Nat} (room : place < cells.length) (holds : allowed place) :
    Traced.Yields allowed (.peek id cells place) cells[place] := Traced.yields_peek room holds

theorem copy_yields (fits : start + count ≤ cells.length)
    (inside : ∀ place, start ≤ place → place < start + count → allowed place) :
    Traced.Yields allowed (copy cells start count) (slice cells start (start + count)) := by
  induction count generalizing start with
  | zero =>
      have none : slice cells start (start + 0) = [] := slice_empty (Nat.le_refl _)
      rw [none]
      exact Traced.yields_pure
  | succ count ih =>
      have rest : start + (count + 1) = start + 1 + count := by omega
      have later : Traced.Yields allowed (copy cells (start + 1) count) (slice cells (start + 1) (start + 1 + count)) :=
        ih (by omega) fun place lower upper => inside place (by omega) (by omega)
      rw [← rest] at later
      rw [slice_cons (by omega) fits]
      exact Traced.yields_bind (look_yields (by omega) (inside start (Nat.le_refl _) (by omega)))
        (Traced.yields_bind later Traced.yields_pure)

theorem copy_between (some : first < last) (fits : last ≤ cells.length)
    (inside : ∀ place, first ≤ place → place < last → allowed place) :
    Traced.Yields allowed (copy cells first (last - first)) (slice cells first last) := by
  have ends : first + (last - first) = last := by omega
  have copied : Traced.Yields allowed (copy cells first (last - first)) (slice cells first (first + (last - first))) :=
    copy_yields (by omega) fun place lower upper => inside place lower (by omega)
  rwa [ends] at copied

/-- What the two pointers enclose has the same to be trimmed. -/
structure Encloses (cells : List UInt8) (first last : Nat) (span : Span) : Prop where
  same : trim isspace isTail (slice cells span.serialS span.serialE) = trim isspace isTail (slice cells first last)
  lower : first ≤ span.serialS
  upper : span.serialE ≤ last

/-- Nothing is left to be trimmed. -/
structure Trimmed (cells : List UInt8) (first last : Nat) (span : Span) : Prop where
  whole : slice cells span.serialS span.serialE = trim isspace isTail (slice cells first last)
  lower : first ≤ span.serialS
  upper : span.serialE ≤ last

theorem trimRound_yields (fits : last ≤ cells.length) (inside : ∀ place, first ≤ place → place < last → allowed place)
    (encloses : Encloses cells first last span) :
    (∃ result, Traced.Yields allowed (trimRound cells span) (.stop result) ∧ Trimmed cells first last result) ∨
      ∃ after, Traced.Yields allowed (trimRound cells span) (.next after) ∧ Encloses cells first last after ∧
        after.serialE - after.serialS < span.serialE - span.serialS := by
  obtain ⟨same, lower, upper⟩ := encloses
  by_cases begun : span.serialS < span.serialE
  · have room : span.serialE ≤ cells.length := Nat.le_trans upper fits
    have front : Traced.Yields allowed (.peek id cells span.serialS) cells[span.serialS] :=
      look_yields (by omega) (inside _ lower (by omega))
    have cons := slice_cons begun room
    have concat := slice_concat begun room
    rw [trimRound, if_pos begun]
    by_cases space : isspace cells[span.serialS]
    · right
      have later : first ≤ span.serialS + 1 := by omega
      refine ⟨{ span with serialS := span.serialS + 1 }, Traced.yields_bind front ?_, ⟨?_, later, upper⟩, ?_⟩
      · rw [if_pos space]
        exact Traced.yields_pure
      · rw [← same, cons, trim_cons space]
      · show span.serialE - (span.serialS + 1) < span.serialE - span.serialS
        omega
    · have back : Traced.Yields allowed (.peek id cells (span.serialE - 1)) cells[span.serialE - 1] :=
        look_yields (by omega) (inside _ (by omega) (by omega))
      have keeps : ∀ head, (slice cells span.serialS (span.serialE - 1) ++ [cells[span.serialE - 1]]).head? = some head →
          ¬ isspace head := by
        intro head begins
        rw [← concat, cons, List.head?_cons] at begins
        exact Option.some.inj begins ▸ space
      by_cases tail : isTail cells[span.serialE - 1]
      · right
        refine ⟨{ span with serialE := span.serialE - 1 }, Traced.yields_bind front ?_, ⟨?_, lower, ?_⟩, ?_⟩
        · rw [if_neg space]
          refine Traced.yields_bind back ?_
          rw [if_pos tail]
          exact Traced.yields_pure
        · rw [← same, concat, trim_concat keeps tail]
        · show span.serialE - 1 ≤ last
          omega
        · show span.serialE - 1 - span.serialS < span.serialE - span.serialS
          omega
      · left
        refine ⟨span, Traced.yields_bind front ?_, ⟨?_, lower, upper⟩⟩
        · rw [if_neg space]
          refine Traced.yields_bind back ?_
          rw [if_neg tail]
          exact Traced.yields_pure
        · rw [← same, concat, trim_kept keeps tail]
  · left
    refine ⟨span, ?_, ?_, lower, upper⟩
    · rw [trimRound, if_neg begun]
      exact Traced.yields_pure
    · rw [← same, slice_empty (by omega)]
      rfl

/-- What `trim_serial` yields; it looks at the part only. -/
theorem trimSerial_yields (fits : start + count ≤ cells.length)
    (inside : ∀ place, start ≤ place → place < start + count → allowed place) :
    Traced.Yields allowed (trimSerial cells start count [])
      (trim isspace isTail (slice cells start (start + count))) := by
  have begins : Encloses cells start (start + count) { serialS := start, serialE := start + count } :=
    ⟨rfl, Nat.le_refl _, Nat.le_refl _⟩
  have enough : start + count - start < count + 1 := by omega
  obtain ⟨span, looped, whole, lower, upper⟩ := Traced.yields_loop (fun span : Span => span.serialE - span.serialS)
    (fun span encloses => trimRound_yields fits inside encloses) begins enough
  refine Traced.yields_bind looped ?_
  by_cases some : span.serialS < span.serialE
  · rw [if_pos some, ← whole]
    exact copy_between some (Nat.le_trans upper fits) fun place least most => inside place (by omega) (by omega)
  · rw [if_neg some, ← whole, slice_empty (by omega)]
    exact Traced.yields_pure

/-- A part that ends behind the array. -/
theorem trimSerial_outside (outside : cells.length < start + count) (begun : start ≤ cells.length) :
    (trimSerial cells start count serialNo).outcome = .undefined := by
  have rounds : ∀ span : Span, (span.serialS ≤ cells.length ∧ cells.length < span.serialE) →
      (trimRound cells span).outcome = .undefined ∨
        ∃ after, (trimRound cells span).outcome = .returned (.next after) ∧
          (after.serialS ≤ cells.length ∧ cells.length < after.serialE) ∧
            after.serialE - after.serialS < span.serialE - span.serialS := by
    intro span given
    obtain ⟨lower, upper⟩ := given
    have begun : span.serialS < span.serialE := by omega
    have ends : cells[span.serialE - 1]? = none := List.getElem?_eq_none (by omega)
    rw [trimRound, if_pos begun, Traced.outcome_bind, Traced.peek]
    rcases Nat.lt_or_eq_of_le lower with before | behind
    · rw [List.getElem?_eq_getElem before, Outcome.ofOption_some, Outcome.returned_bind]
      by_cases space : isspace cells[span.serialS]
      · right
        rw [if_pos space]
        refine ⟨{ span with serialS := span.serialS + 1 }, rfl, ⟨before, upper⟩, ?_⟩
        show span.serialE - (span.serialS + 1) < span.serialE - span.serialS
        omega
      · left
        rw [if_neg space, Traced.outcome_bind, Traced.peek, ends, Outcome.ofOption_none, Outcome.undefined_bind]
    · left
      rw [List.getElem?_eq_none (Nat.le_of_eq behind.symm), Outcome.ofOption_none, Outcome.undefined_bind]
  have fails : (Traced.loop (trimRound cells) (count + 1) { serialS := start, serialE := start + count }).outcome =
      .undefined := by
    rw [Traced.outcome_loop]
    refine whileLoop_fails (fun span : Span => span.serialE - span.serialS) rounds ⟨begun, outside⟩ ?_
    show start + count - start < count + 1
    omega
  rw [trimSerial, Traced.outcome_bind, fails, Outcome.undefined_bind]

/-- The device can be asked and answers. -/
def Replies (disk : Disk) : Prop :=
  disk.fd ≠ -1 ∧ 0 ≤ disk.versionIoctl ∧ 30000 ≤ disk.version ∧ scsiIo disk

/-- The length that the fourth byte tells. -/
def pageLen (disk : Disk) : Nat := (disk.data.getD 3 0).toNat

/-- The bytes of the page without whitespace in front and without whitespace and zero bytes at the end. -/
def pageText (disk : Disk) : List UInt8 := trim isspace isTail (slice disk.data 4 (4 + pageLen disk))

/-- Only bytes of the reply are looked at, and the serial number is what the page holds. -/
def ReadsReply (disk : Disk) : Prop :=
  Traced.Yields (fun place => place < 0x00ff) (getDiskSerialByWay2 disk) (pageText disk, !(pageText disk).isEmpty)

theorem getDiskSerialByWay2_asks (replies : Replies disk) : getDiskSerialByWay2 disk = (do
    let pageLen ← .peek id disk.data 3
    let serialNo ← trimSerial disk.data 4 pageLen.toNat []
    return (serialNo, !serialNo.isEmpty)) := by
  obtain ⟨opened, answered, recent, done⟩ := replies
  rw [getDiskSerialByWay2, if_neg opened, if_neg (by omega), if_pos done]

theorem pageLen_peek : (Traced.peek id disk.data 3).outcome = .returned (disk.data.getD 3 0) := by
  have inside : 3 < disk.data.length := by
    rw [disk.size]
    decide
  rw [Traced.peek, List.getD_eq_getElem?_getD, List.getElem?_eq_getElem inside]
  rfl

theorem long_page_outside (replies : Replies disk) (long : 251 < pageLen disk) : ¬ ReadsReply disk := by
  have size := disk.size
  have fails : (trimSerial disk.data 4 (disk.data.getD 3 0).toNat []).outcome = .undefined := by
    refine trimSerial_outside ?_ (by omega)
    rw [pageLen] at long
    omega
  intro reads
  have returned := reads.returned
  rw [getDiskSerialByWay2_asks replies, Traced.outcome_bind, pageLen_peek, Outcome.returned_bind, Traced.outcome_bind,
    fails] at returned
  contradiction

/-- The reply is enough for pages of up to 251 bytes. -/
theorem reads_reply_iff (replies : Replies disk) : ReadsReply disk ↔ pageLen disk ≤ 251 := by
  constructor
  · intro reads
    by_contra long
    exact long_page_outside replies (Nat.lt_of_not_le long) reads
  · intro short
    have size := disk.size
    have fourth : Traced.Yields (fun place => place < 0x00ff) (.peek id disk.data 3) (disk.data.getD 3 0) :=
      ⟨pageLen_peek, Traced.notes_single rfl (by decide)⟩
    have page : Traced.Yields (fun place => place < 0x00ff) (trimSerial disk.data 4 (disk.data.getD 3 0).toNat [])
        (pageText disk) := by
      rw [pageLen] at short
      exact trimSerial_yields (by omega) fun place _ upper => by omega
    rw [ReadsReply, getDiskSerialByWay2_asks replies]
    exact Traced.yields_bind fourth (Traced.yields_bind page Traced.yields_pure)

/-- A disk that answers with some bytes, and with zero bytes behind them. -/
def answering (reply : List UInt8) (short : reply.length ≤ 0x00ff) : Disk where
  fd := 3
  versionIoctl := 0
  version := 30536
  sgIoctl := 0
  ioHdr := { info := 0, sbLenWr := 0, maskedStatus := 0, hostStatus := 0, driverStatus := 0 }
  data := reply ++ .replicate (0x00ff - reply.length) 0
  size := by
    rw [List.length_append, List.length_replicate]
    omega

theorem answering_replies {reply : List UInt8} {short : reply.length ≤ 0x00ff} : Replies (answering reply short) :=
  ⟨show (3 : Int) ≠ -1 by decide, Int.le_refl 0, show (30000 : Int) ≤ 30536 by decide, rfl⟩

theorem reads_reply_letter : ReadsReply (answering [0, 0x80, 0, 3, 32, 65, 32] (by decide)) :=
  (reads_reply_iff answering_replies).mpr (by decide)

/-- The last byte of a page of 252 bytes is none of the reply. -/
theorem long_page_not_read : ¬ ReadsReply (answering [0, 0x80, 0, 252, 65] (by decide)) :=
  long_page_outside answering_replies (by decide)

end Dwadelib.Hardware
