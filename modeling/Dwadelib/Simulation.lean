import Mathlib.Data.List.Basic

namespace Dwadelib

/-! # Machines that answer calls

A machine takes a state and a call to the next state and an answer, `none` where the call
is not allowed. What a caller sees of a machine are its answers, so one machine stands for
another if it gives the same answers to every sequence of calls that the other one allows.
-/

namespace Simulation

variable {σ τ ε ρ : Type} {low : σ → ε → Option (σ × ρ)} {high : τ → ε → Option (τ × ρ)}
  {state middle final : σ} {model : τ} {call : ε} {calls : List ε} {answer : ρ} {answers : List ρ}

/-- The final state and the answers in order; `none` as soon as one call is not allowed. -/
def performAll (low : σ → ε → Option (σ × ρ)) : σ → List ε → Option (σ × List ρ)
  | state, [] => some (state, [])
  | state, call :: calls =>
      (low state call).bind fun first =>
        (performAll low first.1 calls).map fun rest => (rest.1, first.2 :: rest.2)

theorem performAll_cons_eq_some :
    performAll low state (call :: calls) = some (final, answers) ↔
      ∃ next answer rest, low state call = some (next, answer) ∧
        performAll low next calls = some (final, rest) ∧ answers = answer :: rest := by
  simp only [performAll, Option.bind_eq_some_iff, Option.map_eq_some_iff, Prod.exists,
    Prod.mk.injEq]
  constructor
  · intro given
    obtain ⟨next, answer, taken, last, rest, performed, rfl, rfl⟩ := given
    exact ⟨next, answer, rest, taken, performed, rfl⟩
  · intro given
    obtain ⟨next, answer, rest, taken, performed, rfl⟩ := given
    exact ⟨next, answer, taken, final, rest, performed, rfl, rfl⟩

theorem performAll_append_eq_some {before : List ε} :
    performAll low state (before ++ calls) = some (final, answers) ↔
      ∃ middle first rest, performAll low state before = some (middle, first) ∧
        performAll low middle calls = some (final, rest) ∧ answers = first ++ rest := by
  induction before generalizing state answers with
  | nil =>
      constructor
      · intro performed
        exact ⟨state, [], answers, rfl, performed, rfl⟩
      · intro given
        obtain ⟨middle, first, rest, started, performed, rfl⟩ := given
        cases started
        exact performed
  | cons call before ih =>
      rw [List.cons_append, performAll_cons_eq_some]
      constructor
      · intro given
        obtain ⟨next, answer, others, taken, performed, rfl⟩ := given
        obtain ⟨middle, first, rest, started, continued, rfl⟩ := ih.mp performed
        exact ⟨middle, answer :: first, rest,
          performAll_cons_eq_some.mpr ⟨next, answer, first, taken, started, rfl⟩, continued, rfl⟩
      · intro given
        obtain ⟨middle, first, rest, started, continued, rfl⟩ := given
        obtain ⟨next, answer, others, taken, performed, rfl⟩ := performAll_cons_eq_some.mp started
        exact ⟨next, answer, others ++ rest, taken, ih.mpr ⟨middle, others, rest, performed, continued, rfl⟩, rfl⟩

theorem length_of_performAll (performed : performAll low state calls = some (final, answers)) :
    answers.length = calls.length := by
  induction calls generalizing state answers with
  | nil =>
      cases performed
      rfl
  | cons call calls ih =>
      obtain ⟨next, answer, rest, -, following, rfl⟩ := performAll_cons_eq_some.mp performed
      rw [List.length_cons, List.length_cons, ih following]

/-- Each call that the model allows is allowed by the machine, is answered in the same way and
leads to states that stand for each other. -/
structure Simulates (low : σ → ε → Option (σ × ρ)) (high : τ → ε → Option (τ × ρ))
    (represents : σ → τ → Prop) : Prop where
  matched : ∀ {state model call next answer}, represents state model →
    high model call = some (next, answer) →
      ∃ after, low state call = some (after, answer) ∧ represents after next

theorem Simulates.performAll {represents : σ → τ → Prop} (simulates : Simulates low high represents)
    {last : τ} (related : represents state model)
    (performed : Simulation.performAll high model calls = some (last, answers)) :
    ∃ final, Simulation.performAll low state calls = some (final, answers) ∧ represents final last := by
  induction calls generalizing state model answers with
  | nil =>
      cases performed
      exact ⟨state, rfl, related⟩
  | cons call calls ih =>
      obtain ⟨next, answer, rest, taken, following, rfl⟩ := performAll_cons_eq_some.mp performed
      obtain ⟨after, matched, kept⟩ := simulates.matched related taken
      obtain ⟨final, reached, represented⟩ := ih kept following
      exact ⟨final, performAll_cons_eq_some.mpr ⟨after, answer, rest, matched, reached, rfl⟩, represented⟩

/-- Most calls either change the state and say no more than that, or ask something and leave the state as it is. -/
def changed (answer : ρ) (result : Option σ) : Option (σ × ρ) := result.map fun state => (state, answer)

def asked {γ : Type} (state : σ) (answerOf : γ → ρ) (result : Option γ) : Option (σ × ρ) :=
  result.map fun value => (state, answerOf value)

section Matched

variable {represents : σ → τ → Prop} {next : τ} {γ δ : Type}

theorem changed_matched {done : ρ} {produced : Option σ} {result : Option τ}
    (taken : changed done result = some (next, answer))
    (does : ∀ other, result = some other → ∃ after, produced = some after ∧ represents after other) :
    ∃ after, changed done produced = some (after, answer) ∧ represents after next := by
  obtain ⟨other, allowed, same⟩ := Option.map_eq_some_iff.mp taken
  obtain ⟨rfl, rfl⟩ := Prod.mk.inj same
  obtain ⟨after, done, related⟩ := does other allowed
  exact ⟨after, by rw [changed, done, Option.map_some], related⟩

theorem asked_matched {asking : Option γ} {meaning : Option δ} {answerOf : γ → ρ} {answerTo : δ → ρ}
    (related : represents state model) (taken : asked model answerTo meaning = some (next, answer))
    (answers : ∀ known, meaning = some known → ∃ value, asking = some value ∧ answerOf value = answerTo known) :
    ∃ after, asked state answerOf asking = some (after, answer) ∧ represents after next := by
  obtain ⟨known, meant, same⟩ := Option.map_eq_some_iff.mp taken
  obtain ⟨rfl, rfl⟩ := Prod.mk.inj same
  obtain ⟨value, found, agrees⟩ := answers known meant
  exact ⟨state, by rw [asked, found, Option.map_some, agrees], related⟩

end Matched

end Simulation

end Dwadelib
