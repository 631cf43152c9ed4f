import Mathlib.Data.List.Basic

namespace Dwadelib

/-! # Counting loops

`for (i = start; i < start + count; i++)` over a loop state, in a language where the
body may be undefined. The rules are the usual ones: one step from either end, a
partial rule for what every completed body preserves, and a total rule.
-/

variable {σ : Type} {body : Nat → σ → Option σ} {state final : σ} {start count : Nat}

def forRange (start count : Nat) (body : Nat → σ → Option σ) (state : σ) : Option σ :=
  (List.range' start count).foldlM (fun state index => body index state) state

@[simp] theorem forRange_zero : forRange start 0 body state = some state := rfl

theorem forRange_succ :
    forRange start (count + 1) body state =
      (body start state).bind fun next => forRange (start + 1) count body next := rfl

theorem forRange_succ_eq_some :
    forRange start (count + 1) body state = some final ↔
      ∃ next, body start state = some next ∧ forRange (start + 1) count body next = some final := by
  simp only [forRange_succ, Option.bind_eq_some_iff]

theorem forRange_last :
    forRange start (count + 1) body state =
      (forRange start count body state).bind fun next => body (start + count) next := by
  simp only [forRange, List.range'_concat, Nat.one_mul, List.foldlM_append, List.foldlM_cons,
    List.foldlM_nil, bind, pure, Option.bind_fun_some]

theorem forRange_last_eq_some :
    forRange start (count + 1) body state = some final ↔
      ∃ next, forRange start count body state = some next ∧ body (start + count) next = some final := by
  simp only [forRange_last, Option.bind_eq_some_iff]

theorem forRange_congr {other : Nat → σ → Option σ}
    (same : ∀ index, start ≤ index → index < start + count → body index = other index) :
    forRange start count body state = forRange start count other state := by
  induction count generalizing start state with
  | zero => rfl
  | succ count ih =>
      rw [forRange_succ, forRange_succ, same start (Nat.le_refl start) (by omega)]
      congr 1
      funext next
      exact ih fun index lower upper => same index (by omega) (by omega)

/-- Partial correctness: what every completed iteration preserves holds at the end. -/
theorem forRange_invariant (invariant : Nat → σ → Prop)
    (preserved : ∀ index state next, start ≤ index → index < start + count →
      invariant index state → body index state = some next → invariant (index + 1) next)
    (holds : invariant start state) (completed : forRange start count body state = some final) :
    invariant (start + count) final := by
  induction count generalizing final with
  | zero => cases completed; exact holds
  | succ count ih =>
      obtain ⟨middle, first, last⟩ := forRange_last_eq_some.mp completed
      have before := ih (fun index state next lower upper =>
        preserved index state next lower (by omega)) first
      exact preserved (start + count) middle final (by omega) (by omega) before last

/-- Total correctness: if every iteration completes and keeps the invariant, so does the loop. -/
theorem forRange_total (invariant : Nat → σ → Prop)
    (completes : ∀ index state, start ≤ index → index < start + count → invariant index state →
      ∃ next, body index state = some next ∧ invariant (index + 1) next)
    (holds : invariant start state) :
    ∃ final, forRange start count body state = some final ∧ invariant (start + count) final := by
  induction count with
  | zero => exact ⟨state, rfl, holds⟩
  | succ count ih =>
      obtain ⟨middle, first, before⟩ := ih fun index state lower upper =>
        completes index state lower (by omega)
      obtain ⟨final, last, kept⟩ := completes (start + count) middle (by omega) (by omega) before
      exact ⟨final, forRange_last_eq_some.mpr ⟨middle, first, last⟩, kept⟩

section Traced

variable {ε : Type} {note : Nat → σ → List ε} {noted : List ε}

/-- The same loop with an account of its iterations, each noted from the state it starts in. -/
def forRangeTraced (start : Nat) :
    Nat → (Nat → σ → Option σ) → (Nat → σ → List ε) → σ → Option (σ × List ε)
  | 0, _, _, state => some (state, [])
  | count + 1, body, note, state =>
      (body start state).bind fun next =>
        (forRangeTraced (start + 1) count body note next).map fun rest =>
          (rest.1, note start state ++ rest.2)

theorem forRangeTraced_succ_eq_some :
    forRangeTraced start (count + 1) body note state = some (final, noted) ↔
      ∃ next rest, body start state = some next ∧
        forRangeTraced (start + 1) count body note next = some (final, rest) ∧
        noted = note start state ++ rest := by
  simp only [forRangeTraced, Option.bind_eq_some_iff, Option.map_eq_some_iff, Prod.mk.injEq]
  constructor
  · intro given
    obtain ⟨next, taken, ⟨_, rest⟩, looped, rfl, rfl⟩ := given
    exact ⟨next, rest, taken, looped, rfl⟩
  · intro given
    obtain ⟨next, rest, taken, looped, rfl⟩ := given
    exact ⟨next, taken, (final, rest), looped, rfl, rfl⟩

/-- The account does not change the loop. -/
theorem forRangeTraced_fst :
    (forRangeTraced start count body note state).map Prod.fst =
      forRange start count body state := by
  induction count generalizing start state with
  | zero => rfl
  | succ count ih =>
      simp only [forRangeTraced, forRange_succ, Option.map_bind, Function.comp_def, Option.map_map]
      congr 1
      funext next
      exact ih

theorem forRange_of_traced
    (looped : forRangeTraced start count body note state = some (final, noted)) :
    forRange start count body state = some final := by
  have same := congrArg (Option.map Prod.fst) looped
  rwa [forRangeTraced_fst] at same

theorem forRangeTraced_exists (note : Nat → σ → List ε) (looped : forRange start count body state = some final) :
    ∃ noted, forRangeTraced start count body note state = some (final, noted) := by
  have same : (forRangeTraced start count body note state).map Prod.fst = some final :=
    forRangeTraced_fst.trans looped
  obtain ⟨⟨_, noted⟩, traced, rfl⟩ := Option.map_eq_some_iff.mp same
  exact ⟨noted, traced⟩

/-- The partial rule, where what the account says of an iteration may be used to keep the
invariant. -/
theorem forRangeTraced_invariant (invariant : Nat → σ → Prop)
    (preserved : ∀ index state next, start ≤ index → index < start + count → invariant index state →
      body index state = some next → (∀ entry ∈ note index state, entry ∈ noted) →
      invariant (index + 1) next)
    (holds : invariant start state)
    (completed : forRangeTraced start count body note state = some (final, noted)) :
    invariant (start + count) final := by
  induction count generalizing start state noted with
  | zero => cases completed; exact holds
  | succ count ih =>
      obtain ⟨next, rest, taken, looped, rfl⟩ := forRangeTraced_succ_eq_some.mp completed
      have first := preserved start state next (Nat.le_refl start) (by omega) holds taken
        fun entry present => List.mem_append_left rest present
      have reached := ih (fun index state next lower upper held step present =>
        preserved index state next (by omega) (by omega) held step fun entry inNote =>
          List.mem_append_right _ (present entry inNote)) first looped
      rwa [Nat.add_assoc, Nat.add_comm 1] at reached

/-- The total rule, with what holds of every entry of the account. -/
theorem forRangeTraced_total (invariant : Nat → σ → Prop) (allowed : ε → Prop)
    (completes : ∀ index state, start ≤ index → index < start + count → invariant index state →
      (∀ entry ∈ note index state, allowed entry) ∧
        ∃ next, body index state = some next ∧ invariant (index + 1) next)
    (holds : invariant start state) :
    ∃ final noted, forRangeTraced start count body note state = some (final, noted) ∧
      (∀ entry ∈ noted, allowed entry) ∧ invariant (start + count) final := by
  induction count generalizing start state with
  | zero => exact ⟨state, [], rfl, fun _ absent => absurd absent List.not_mem_nil, holds⟩
  | succ count ih =>
      obtain ⟨here, next, taken, first⟩ := completes start state (Nat.le_refl start) (by omega) holds
      obtain ⟨final, rest, looped, later, reached⟩ := ih (fun index state lower upper =>
        completes index state (by omega) (by omega)) first
      refine ⟨final, note start state ++ rest,
        forRangeTraced_succ_eq_some.mpr ⟨next, rest, taken, looped, rfl⟩, ?_, ?_⟩
      · intro entry present
        rcases List.mem_append.mp present with now | after
        · exact here entry now
        · exact later entry after
      · rwa [Nat.add_assoc, Nat.add_comm 1] at reached

end Traced

end Dwadelib
