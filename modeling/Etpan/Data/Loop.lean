import Mathlib

namespace Etpan.Data

/-! Loops with a bound on the rounds, and runs of a system step after step. -/

section Loop

variable {σ ρ : Type}

/-- A round goes on with a state or leaves the loop; `none` says that the rounds did not suffice. -/
def loop (body : σ → σ ⊕ ρ) : Nat → σ → Option ρ
  | 0, _ => none
  | rounds + 1, s =>
      match body s with
      | .inl next => loop body rounds next
      | .inr result => some result

/-- How a round ends: the loop is left as it should be, or it goes on and comes closer to its end. -/
inductive Round (invariant : σ → Prop) (post : ρ → Prop) (variant : σ → Nat) (s : σ) : σ ⊕ ρ → Prop
  | left {result : ρ} (done : post result) : Round invariant post variant s (.inr result)
  | next {next : σ} (kept : invariant next) (closer : variant next < variant s) : Round invariant post variant s (.inl next)

theorem loop_ends {body : σ → σ ⊕ ρ} {invariant : σ → Prop} {post : ρ → Prop} {variant : σ → Nat}
    (round : ∀ s, invariant s → Round invariant post variant s (body s)) {rounds : Nat} {s : σ}
    (start : invariant s) (enough : variant s < rounds) : ∃ result, loop body rounds s = some result ∧ post result := by
  induction rounds generalizing s with
  | zero => omega
  | succ rounds ih =>
      have first := round s start
      cases outcome : body s with
      | inr result =>
          rw [outcome] at first
          cases first with
          | left done => exact ⟨result, by simp only [loop, outcome], done⟩
      | inl next =>
          rw [outcome] at first
          cases first with
          | next kept closer =>
              obtain ⟨result, ended, done⟩ := ih kept (by omega)
              exact ⟨result, by simpa only [loop, outcome] using ended, done⟩

theorem loop_keeps {body : σ → σ ⊕ ρ} {invariant : σ → Prop} {post : ρ → Prop}
    (turn : ∀ s, invariant s → (body s).elim invariant post) {rounds : Nat} {s : σ} {result : ρ} (start : invariant s)
    (ended : loop body rounds s = some result) : post result := by
  induction rounds generalizing s with
  | zero => cases ended
  | succ rounds ih =>
      have kept := turn s start
      cases outcome : body s with
      | inl next =>
          simp only [loop, outcome] at ended
          rw [outcome] at kept
          exact ih kept ended
      | inr last =>
          simp only [loop, outcome, Option.some.injEq] at ended
          rw [outcome] at kept
          exact ended ▸ kept

theorem log_double {number bound : Nat} (positive : 0 < number) (below : number * 2 < 2 ^ bound) :
    bound - Nat.log 2 (number * 2) < bound - Nat.log 2 number := by
  have log : Nat.log 2 (number * 2) = Nat.log 2 number + 1 := Nat.log_mul_base (by omega) (by omega)
  have small : Nat.log 2 (number * 2) < bound := Nat.log_lt_of_lt_pow (by omega) below
  omega

end Loop

section Run

variable {σ ε : Type} {step : σ → ε → σ}

/-- Each step of the run of the events meets the condition in the state where it is taken. -/
def EachStep (step : σ → ε → σ) (condition : σ → ε → Prop) : σ → List ε → Prop
  | _, [] => True
  | s, event :: events => condition s event ∧ EachStep step condition (step s event) events

theorem EachStep.always {condition : σ → ε → Prop} (all : ∀ s event, condition s event) (s : σ) (events : List ε) :
    EachStep step condition s events := by
  induction events generalizing s with
  | nil => trivial
  | cons event events ih => exact ⟨all s event, ih _⟩

theorem run_invariant {invariant : σ → Prop} (keeps : ∀ s event, invariant s → invariant (step s event)) {s : σ}
    {events : List ε} (start : invariant s) : invariant (events.foldl step s) := by
  induction events generalizing s with
  | nil => exact start
  | cons event events ih => exact ih (keeps s event start)

/-- Each safe step ends well and keeps the invariant, and so does each step of a safe run. -/
theorem EachStep.of_safe {good safe : σ → ε → Prop} {invariant : σ → Prop}
    (ends : ∀ s event, invariant s → safe s event → good s event) (keeps : ∀ s event, invariant s → safe s event → invariant (step s event))
    {s : σ} {events : List ε} (start : invariant s) (each : EachStep step safe s events) : EachStep step good s events := by
  induction events generalizing s with
  | nil => trivial
  | cons event events ih => exact ⟨ends s event start each.1, ih (keeps s event start each.1) each.2⟩

/-- Where the steps that end well are exactly the safe ones, so are the runs. -/
theorem EachStep.iff_safe {legal good safe : σ → ε → Prop} {invariant : σ → Prop}
    (exact : ∀ s event, invariant s → legal s event → (good s event ↔ safe s event))
    (keeps : ∀ s event, invariant s → legal s event → safe s event → invariant (step s event)) {s : σ} {events : List ε}
    (start : invariant s) (each : EachStep step legal s events) : EachStep step good s events ↔ EachStep step safe s events := by
  induction events generalizing s with
  | nil => exact Iff.rfl
  | cons event events ih =>
      have here := exact s event start each.1
      constructor
      · rintro ⟨good, further⟩
        have safe := here.mp good
        exact ⟨safe, (ih (keeps s event start each.1 safe) each.2).mp further⟩
      · rintro ⟨safe, further⟩
        exact ⟨here.mpr safe, (ih (keeps s event start each.1 safe) each.2).mpr further⟩

end Run

end Etpan.Data
