import Dwadelib.Cells
import Dwadelib.Monitor
import Dwadelib.Wgrep.Lines

namespace Dwadelib.Monitor

open Wgrep (newline linesOf)

/-! # What is relayed

A line is collected in the array until its newline comes or the array is full. Only then the array is
printed, which needs a zero byte behind the text.
-/

variable {pending unread output : List UInt8} {byte : UInt8} {count : Nat} {relay : Relay}

/-- A relay of bytes: each one is stored inside of the array, and what is printed are the bytes since the last
time. -/
inductive Relays : (acts : List Act) → (printed pending : List UInt8) → Prop where
  | start : Relays [] [] []
  | stored {acts printed pending index byte} (relays : Relays acts printed pending) (lower : 0 ≤ index)
      (upper : index < 1024) : Relays (acts ++ [.stored index byte]) printed (pending ++ [byte])
  | printed {acts printed pending} (relays : Relays acts printed pending) :
      Relays (acts ++ [.printed pending]) (printed ++ pending) []

/-- After any number of rounds what was printed and what is pending is a beginning of the command's output. -/
def Relayed (output : List UInt8) : Prop :=
  ∀ rounds, (systemCall (some output) rounds).outcome = .running ∧
    ∃ printed pending, Relays (systemCall (some output) rounds).noted printed pending ∧ printed ++ pending <+: output

/-- A line that does not fit into the array with a zero byte behind it. -/
def Long (text : List UInt8) : Prop := ∃ line ∈ linesOf text, 1023 < line.length

/-- The array holds the text and zero bytes. -/
def held (pending : List UInt8) (count : Nat) (unread : List UInt8) : Relay where
  temp := pending ++ .replicate (1024 - pending.length) 0
  i := count
  unread := unread

theorem fread_byte (room : pending.length < 1024) :
    fread (held pending pending.length (byte :: unread)) =
      { noted := [.stored pending.length byte]
        outcome := .returned (held (pending ++ [byte]) pending.length unread) } := by
  have inside : pending.length < (pending ++ List.replicate (1024 - pending.length) (0 : UInt8)).length := by
    rw [List.length_append, List.length_replicate]
    omega
  have zeros : List.replicate (1024 - pending.length) (0 : UInt8) =
      0 :: List.replicate (1024 - (pending.length + 1)) 0 := by
    rw [← List.replicate_succ]
    congr 1
    omega
  have written : (pending ++ List.replicate (1024 - pending.length) 0).set pending.length byte =
      pending ++ [byte] ++ List.replicate (1024 - (pending ++ [byte]).length) 0 := by
    rw [List.set_append_right _ _ (Nat.le_refl _), Nat.sub_self, zeros, List.append_assoc, List.length_append,
      List.length_singleton]
    rfl
  simp only [fread, held]
  rw [Traced.bind_returned (Traced.write_inside inside), written]
  rfl

theorem fread_full (full : pending.length = 1024) :
    (fread (held pending pending.length (byte :: unread))).outcome = .undefined := by
  have outside : CInt.write (pending ++ List.replicate (1024 - pending.length) 0) pending.length byte = none := by
    rw [CInt.write, if_neg]
    rw [List.length_append, List.length_replicate]
    omega
  simp only [fread, held, Traced.outcome_bind, Traced.write, outside]
  rfl

theorem print_text (free : 0 ∉ pending) {zeros : Nat} (ended : 0 < zeros) :
    print (pending ++ .replicate zeros 0) = .note (.printed pending) := by
  obtain ⟨fewer, rfl⟩ : ∃ fewer, zeros = fewer + 1 := ⟨zeros - 1, by omega⟩
  rw [print, List.replicate_succ, CString.contents_terminated free, if_pos]
  exact List.mem_append_right _ List.mem_cons_self

theorem print_unterminated (free : 0 ∉ pending) : (print pending).outcome = .undefined := by
  rw [print, if_neg free]
  rfl

/-- The byte that was stored last decides. -/
theorem flushes_byte (room : pending.length < 1024) :
    flushes (held (pending ++ [byte]) pending.length unread) = .returned (byte = newline) := by
  have here : (held (pending ++ [byte]) pending.length unread).temp[pending.length]? = some byte := by
    rw [held, List.append_assoc]
    exact Cells.getElem?_middle
  have few : ¬ (held (pending ++ [byte]) pending.length unread).i > 1023 := by
    show ¬ (pending.length : Int) > 1023
    omega
  have read : CInt.read (held (pending ++ [byte]) pending.length unread).temp
      (held (pending ++ [byte]) pending.length unread).i = some byte := (CInt.read_natCast _ _).trans here
  rw [flushes, if_neg few, read, Outcome.ofOption_some, Outcome.returned_bind]
  rfl

theorem flushes_zero (behind : pending.length ≤ count) (room : count < 1024) :
    flushes (held pending count unread) = .returned false := by
  have here : (held pending count unread).temp[count]? = some 0 := by
    rw [held, List.getElem?_append_right behind, List.getElem?_replicate, if_pos (by omega)]
  have few : ¬ (held pending count unread).i > 1023 := by
    show ¬ (count : Int) > 1023
    omega
  have read : CInt.read (held pending count unread).temp (held pending count unread).i = some 0 :=
    (CInt.read_natCast _ _).trans here
  rw [flushes, if_neg few, read, Outcome.ofOption_some, Outcome.returned_bind]
  rfl

theorem flushes_full : flushes (held pending 1024 unread) = .returned true := by
  have many : (held pending 1024 unread).i > 1023 := by
    show ((1024 : Nat) : Int) > 1023
    decide
  rw [flushes, if_pos many]
  rfl

theorem free_newline (free : 0 ∉ pending) : 0 ∉ pending ++ [newline] := by
  rw [List.mem_append, List.mem_singleton]
  exact not_or.mpr ⟨free, by decide⟩

/-- At the end of the output nothing is stored. -/
theorem fread_end : fread (held pending count []) = { noted := [], outcome := .returned (held pending count []) } := rfl

theorem round_stores (room : pending.length < 1024) (other : byte ≠ newline) :
    relayRound (held pending pending.length (byte :: unread)) =
      { noted := [.stored pending.length byte]
        outcome := .returned (.next (held (pending ++ [byte]) (pending.length + 1) unread)) } := by
  rw [relayRound, Traced.bind_returned (fread_byte room), flushes_byte room]
  simp only [Traced.lift, other]
  rfl

theorem round_flushes (room : pending.length < 1023) (free : 0 ∉ pending) :
    relayRound (held pending pending.length (newline :: unread)) =
      { noted := [.stored pending.length newline, .printed (pending ++ [newline])]
        outcome := .returned (.next (held [] 0 unread)) } := by
  have printed : print (held (pending ++ [newline]) pending.length unread).temp =
      .note (.printed (pending ++ [newline])) := by
    refine print_text (free_newline free) ?_
    rw [List.length_append, List.length_singleton]
    omega
  rw [relayRound, Traced.bind_returned (fread_byte (by omega)), flushes_byte (by omega)]
  simp only [Traced.lift, printed]
  rfl

theorem round_unterminated (full : pending.length = 1023) (free : 0 ∉ pending) :
    (relayRound (held pending pending.length (newline :: unread))).outcome = .undefined := by
  have none : 1024 - (pending ++ [newline]).length = 0 := by
    rw [List.length_append, List.length_singleton]
    omega
  have printed : (print (held (pending ++ [newline]) pending.length unread).temp).outcome = .undefined := by
    rw [held, none, List.replicate_zero, List.append_nil]
    exact print_unterminated (free_newline free)
  rw [relayRound, Traced.bind_returned (fread_byte (by omega)), flushes_byte (by omega)]
  show (Traced.bind (print _) _).outcome = _
  rw [Traced.bind, printed]

theorem round_overruns (full : pending.length = 1024) :
    (relayRound (held pending pending.length (byte :: unread))).outcome = .undefined := by
  rw [relayRound, Traced.outcome_bind, fread_full full, Outcome.undefined_bind]

/-- At the end of the output the index goes on alone. -/
theorem round_waits (behind : pending.length ≤ count) (room : count < 1024) :
    relayRound (held pending count []) =
      { noted := [], outcome := .returned (.next (held pending (count + 1) [])) } := by
  rw [relayRound, Traced.bind_returned fread_end, flushes_zero behind room]
  rfl

theorem round_ends (room : pending.length < 1024) (free : 0 ∉ pending) :
    relayRound (held pending 1024 []) =
      { noted := [.printed pending], outcome := .returned (.next (held [] 0 [])) } := by
  have printed : print (held pending 1024 []).temp = .note (.printed pending) := print_text free (by omega)
  rw [relayRound, Traced.bind_returned fread_end, flushes_full]
  simp only [Traced.lift, printed]
  rfl

theorem round_ends_unterminated (full : pending.length = 1024) (free : 0 ∉ pending) :
    (relayRound (held pending 1024 [])).outcome = .undefined := by
  have printed : (print (held pending 1024 []).temp).outcome = .undefined := by
    rw [held, full, Nat.sub_self, List.replicate_zero, List.append_nil]
    exact print_unterminated free
  rw [relayRound, Traced.bind_returned fread_end, flushes_full]
  show (Traced.bind (print _) _).outcome = _
  rw [Traced.bind, printed]

theorem long_ended (free : newline ∉ pending) :
    Long (pending ++ newline :: unread) ↔ 1022 < pending.length ∨ Long unread := by
  rw [Long, Wgrep.linesOf_ended free, List.exists_mem_cons_iff, List.length_append, List.length_singleton]
  exact or_congr_left (by omega)

theorem long_last (free : newline ∉ pending) : Long pending ↔ 1023 < pending.length := by
  by_cases nonempty : pending = []
  · subst nonempty
    constructor
    · intro long
      obtain ⟨line, member, -⟩ := long
      contradiction
    · intro long
      contradiction
  · rw [Long, Wgrep.linesOf_last nonempty free, List.exists_mem_cons_iff]
    exact or_iff_left (by simp)

theorem long_begun (free : newline ∉ pending) (full : pending.length = 1024) : Long (pending ++ unread) := by
  have nonempty : pending ++ unread ≠ [] := by
    intro empty
    have length := congrArg List.length empty
    rw [List.length_append, List.length_nil] at length
    omega
  obtain ⟨line, rest, same, isLine⟩ := Wgrep.exists_line nonempty
  refine ⟨line, ?_, ?_⟩
  · rw [same, Wgrep.linesOf_line isLine]
    exact List.mem_cons_self
  · by_contra short
    have front : line <+: pending :=
      List.prefix_of_prefix_length_le ⟨rest, same.symm⟩ ⟨unread, rfl⟩ (by omega)
    cases isLine with
    | @ended body _ => exact free (front.subset (List.mem_append_right body List.mem_cons_self))
    | last _ _ all =>
        have length := congrArg List.length same
        rw [all, List.append_nil, List.length_append] at length
        omega

/-- What the state is like when a round begins. -/
structure Holding (pending unread : List UInt8) (relay : Relay) : Prop where
  state : ∃ count, relay = held pending count unread ∧ pending.length ≤ count ∧ count ≤ 1024 ∧
    (unread ≠ [] → count = pending.length)
  started : newline ∉ pending
  free : 0 ∉ pending ++ unread

/-- How far the end is, as long as a byte is left or the array is not full. -/
def left (relay : Relay) : Nat := relay.unread.length * 1026 + (1024 - relay.i.toNat)

theorem left_held : left (held pending count unread) = unread.length * 1026 + (1024 - count) := rfl

theorem holding_held (room : pending.length ≤ 1024) (started : newline ∉ pending) (free : 0 ∉ pending ++ unread) :
    Holding pending unread (held pending pending.length unread) :=
  ⟨⟨_, rfl, Nat.le_refl _, room, fun _ => rfl⟩, started, free⟩

/-- The round relays bytes and leaves long lines to the rounds behind it. -/
structure Relaying (pending unread : List UInt8) (relay : Relay) (noted : List Act) (nowPending nowUnread : List UInt8)
    (after : Relay) : Prop where
  round : relayRound relay = { noted, outcome := .returned (.next after) }
  holding : Holding nowPending nowUnread after
  relays : ∀ acts printed, Relays acts printed pending → ∃ nowPrinted, Relays (acts ++ noted) nowPrinted nowPending ∧
    nowPrinted ++ (nowPending ++ nowUnread) = printed ++ (pending ++ unread)
  long : Long (nowPending ++ nowUnread) ↔ Long (pending ++ unread)
  closer : Long (pending ++ unread) → left after < left relay

section Rounds

variable (started : newline ∉ pending)
include started

theorem relaying_stored (room : pending.length < 1024) (other : byte ≠ newline) (free : 0 ∉ pending ++ byte :: unread) :
    Relaying pending (byte :: unread) (held pending pending.length (byte :: unread)) [.stored pending.length byte]
      (pending ++ [byte]) unread (held (pending ++ [byte]) (pending.length + 1) unread) := by
  have grown : (pending ++ [byte]).length = pending.length + 1 := List.length_append
  have split : pending ++ [byte] ++ unread = pending ++ byte :: unread := List.append_assoc _ _ _
  have begun : newline ∉ pending ++ [byte] := by
    rw [List.mem_append, List.mem_singleton]
    exact not_or.mpr ⟨started, Ne.symm other⟩
  refine ⟨round_stores room other, ?_, ?_, by rw [split], ?_⟩
  · rw [← grown]
    exact holding_held (by omega) begun (split ▸ free)
  · intro acts printed relays
    exact ⟨printed, relays.stored (Int.natCast_nonneg _) (by omega), by rw [split]⟩
  · intro _
    rw [left_held, left_held, List.length_cons]
    omega

theorem relaying_flushed (fits : pending.length < 1023) (free : 0 ∉ pending) (later : 0 ∉ unread) :
    Relaying pending (newline :: unread) (held pending pending.length (newline :: unread))
      [.stored pending.length newline, .printed (pending ++ [newline])] [] unread (held [] 0 unread) := by
  refine ⟨round_flushes fits free, holding_held (by decide) List.not_mem_nil later, ?_, ?_, ?_⟩
  · intro acts printed relays
    have stored : Relays (acts ++ [.stored pending.length newline]) printed (pending ++ [newline]) :=
      relays.stored (Int.natCast_nonneg _) (by omega)
    have flushed := stored.printed
    rw [List.append_assoc] at flushed
    refine ⟨_, flushed, ?_⟩
    simp only [List.append_assoc, List.nil_append, List.singleton_append]
  · rw [long_ended started, List.nil_append, or_iff_right (by omega)]
  · intro _
    rw [left_held, left_held, List.length_cons]
    omega

theorem relaying_waited (behind : pending.length ≤ count) (room : count < 1024) (free : 0 ∉ pending) :
    Relaying pending [] (held pending count []) [] pending [] (held pending (count + 1) []) := by
  have still : 0 ∉ pending ++ [] := by
    rw [List.append_nil]
    exact free
  refine ⟨round_waits behind room, ?_, ?_, Iff.rfl, ?_⟩
  · exact ⟨⟨count + 1, rfl, by omega, room, fun some => absurd rfl some⟩, started, still⟩
  · intro acts printed relays
    rw [List.append_nil acts]
    exact ⟨printed, relays, rfl⟩
  · intro _
    rw [left_held, left_held]
    omega

theorem relaying_ended (room : pending.length < 1024) (free : 0 ∉ pending) :
    Relaying pending [] (held pending 1024 []) [.printed pending] [] [] (held [] 0 []) := by
  refine ⟨round_ends room free, holding_held (by decide) List.not_mem_nil List.not_mem_nil, ?_, ?_, ?_⟩
  · intro acts printed relays
    exact ⟨printed ++ pending, relays.printed, by rw [List.append_nil, List.append_nil, List.append_nil]⟩
  · rw [List.append_nil, List.append_nil, long_last List.not_mem_nil, long_last started, List.length_nil]
    omega
  · intro long
    rw [List.append_nil, long_last started] at long
    omega

end Rounds

/-- A round is undefined on a long line, or it relays. -/
theorem holding_round (holding : Holding pending unread relay) :
    (Long (pending ++ unread) ∧ (relayRound relay).outcome = .undefined) ∨
      ∃ noted nowPending nowUnread after, Relaying pending unread relay noted nowPending nowUnread after := by
  obtain ⟨⟨count, rfl, behind, most, same⟩, started, free⟩ := holding
  have text : 0 ∉ pending := fun member => free (List.mem_append_left _ member)
  cases unread with
  | nil =>
      rcases Nat.lt_or_eq_of_le most with room | rfl
      · exact .inr ⟨_, _, _, _, relaying_waited started behind room text⟩
      rcases Nat.lt_or_eq_of_le behind with room | full
      · exact .inr ⟨_, _, _, _, relaying_ended started room text⟩
      · rw [List.append_nil]
        exact .inl ⟨(long_last started).mpr (by omega), round_ends_unterminated full text⟩
  | cons byte unread =>
      obtain rfl : count = pending.length := same (List.cons_ne_nil _ _)
      rcases Nat.lt_or_eq_of_le most with room | full
      · by_cases ended : byte = newline
        · subst ended
          by_cases fits : pending.length < 1023
          · have later : 0 ∉ unread := fun member => free (List.mem_append_right _ (List.mem_cons_of_mem _ member))
            exact .inr ⟨_, _, _, _, relaying_flushed started fits text later⟩
          · rw [long_ended started]
            exact .inl ⟨.inl (by omega), round_unterminated (by omega) text⟩
        · exact .inr ⟨_, _, _, _, relaying_stored started room ended free⟩
      · exact .inl ⟨long_begun started full, round_overruns full⟩

/-- A long line ends in what the language leaves undefined. -/
theorem long_fails (holding : Holding pending unread relay) (long : Long (pending ++ unread)) :
    (Traced.loop relayRound (left relay + 1) relay).outcome = .undefined := by
  have rounds : ∀ relay, (∃ pending unread, Holding pending unread relay ∧ Long (pending ++ unread)) →
      (relayRound relay).outcome = .undefined ∨
        ∃ after, (relayRound relay).outcome = .returned (.next after) ∧
          (∃ pending unread, Holding pending unread after ∧ Long (pending ++ unread)) ∧ left after < left relay := by
    intro relay given
    obtain ⟨pending, unread, holding, long⟩ := given
    rcases holding_round holding with ⟨-, fails⟩ | ⟨noted, nowPending, nowUnread, after, relaying⟩
    · exact .inl fails
    · refine .inr ⟨after, ?_, ⟨nowPending, nowUnread, relaying.holding, relaying.long.mpr long⟩, relaying.closer long⟩
      rw [relaying.round]
  rw [Traced.outcome_loop]
  exact whileLoop_fails left rounds ⟨pending, unread, holding, long⟩ (Nat.lt_succ_self _)

theorem relayed_of_short (free : 0 ∉ output) (short : ¬ Long output) : Relayed output := by
  have start : Holding [] output (held [] 0 output) := holding_held (by decide) List.not_mem_nil free
  have rounds : ∀ relay acts,
      (∃ printed pending unread, Holding pending unread relay ∧ Relays acts printed pending ∧
        printed ++ (pending ++ unread) = output ∧ ¬ Long (pending ++ unread)) →
      ∃ noted after, relayRound relay = { noted, outcome := .returned (.next after) } ∧
        ∃ printed pending unread, Holding pending unread after ∧ Relays (acts ++ noted) printed pending ∧
          printed ++ (pending ++ unread) = output ∧ ¬ Long (pending ++ unread) := by
    intro relay acts given
    obtain ⟨printed, pending, unread, holding, relays, whole, short⟩ := given
    rcases holding_round holding with ⟨long, -⟩ | ⟨noted, nowPending, nowUnread, after, relaying⟩
    · exact absurd long short
    · obtain ⟨nowPrinted, relays, rest⟩ := relaying.relays acts printed relays
      exact ⟨noted, after, relaying.round, nowPrinted, nowPending, nowUnread, relaying.holding, relays, rest.trans whole,
        fun long => short (relaying.long.mp long)⟩
  intro count
  obtain ⟨noted, reached, running, printed, pending, unread, -, relays, whole, -⟩ :=
    Traced.loop_goes_on rounds ⟨[], [], output, start, .start, rfl, short⟩ count
  have run : systemCall (some output) count = { noted, outcome := .running } := running
  rw [run]
  refine ⟨rfl, printed, pending, relays, unread, ?_⟩
  rw [List.append_assoc]
  exact whole

theorem not_relayed_of_long (free : 0 ∉ output) (long : Long output) : ¬ Relayed output := by
  have start : Holding [] output (held [] 0 output) := holding_held (by decide) List.not_mem_nil free
  have fails := long_fails start long
  intro relayed
  have running : (Traced.loop relayRound (left (held [] 0 output) + 1) (held [] 0 output)).outcome = .running :=
    (relayed _).1
  rw [fails] at running
  contradiction

/-- The output is relayed where each line, its newline included, leaves room for a zero byte. -/
theorem relayed_iff_short (free : 0 ∉ output) :
    Relayed output ↔ ∀ line ∈ linesOf output, line.length ≤ 1023 := by
  constructor
  · intro relayed line member
    by_contra long
    exact not_relayed_of_long free ⟨line, member, by omega⟩ relayed
  · intro short
    apply relayed_of_short free
    intro long
    obtain ⟨line, member, longer⟩ := long
    have length := short line member
    omega

theorem relayed_route : Relayed [0x61, newline] ↔ ∀ line ∈ linesOf [0x61, newline], line.length ≤ 1023 :=
  relayed_iff_short (by decide)

/-- A newline in the last place of the array. -/
theorem full_line_not_relayed : ¬ Relayed (.replicate 1023 0x61 ++ [newline]) := by
  have full : (List.replicate 1023 (0x61 : UInt8)).length = 1023 := List.length_replicate
  have started : newline ∉ List.replicate 1023 (0x61 : UInt8) :=
    fun member => absurd (List.eq_of_mem_replicate member) (by decide)
  have free : 0 ∉ List.replicate 1023 (0x61 : UInt8) :=
    fun member => absurd (List.eq_of_mem_replicate member) (by decide)
  exact not_relayed_of_long (free_newline free) ((long_ended started).mpr (.inl (by omega)))

end Dwadelib.Monitor
