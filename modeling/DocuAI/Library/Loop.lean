import Mathlib.Data.Nat.Basic

/-!
# Loops

A loop whose rounds can fail, as a function of how many rounds it may take, and the rule for its
total correctness: an invariant the rounds keep and a number they decrease.
-/

namespace Loop

variable {σ ε ρ : Type*}

/-- What a round comes to: the state of the next round, or the result of the loop. -/
inductive Round (σ ρ : Type*) where
  | next (state : σ)
  | done (result : ρ)

/-- The loop with at most the given number of rounds, which may not be enough. -/
def run (body : σ → Except ε (Round σ ρ)) : ℕ → σ → Option (Except ε ρ)
  | 0, _ => none
  | rounds + 1, state =>
      match body state with
      | .error e => some (.error e)
      | .ok (.done result) => some (.ok result)
      | .ok (.next state') => run body rounds state'

/-- What a round does in a state with the invariant: it leads to one with the invariant and a
smaller variant, or to a result with the postcondition. -/
def Descends (body : σ → Except ε (Round σ ρ)) (invariant : σ → Prop) (variant : σ → ℕ)
    (post : ρ → Prop) : Prop :=
  ∀ state, invariant state →
    (∃ state', body state = .ok (.next state') ∧ invariant state' ∧ variant state' < variant state)
    ∨ ∃ result, body state = .ok (.done result) ∧ post result

/-- A loop whose rounds descend returns, without failing, after as many rounds as the variant
allows. -/
theorem run_of_descends {body : σ → Except ε (Round σ ρ)} {invariant : σ → Prop}
    {variant : σ → ℕ} {post : ρ → Prop} (hbody : Descends body invariant variant post)
    {state : σ} (hstate : invariant state) {rounds : ℕ} (hrounds : variant state < rounds) :
  ∃ result, run body rounds state = some (.ok result) ∧ post result
  := by
  induction rounds generalizing state with
  | zero => exact absurd hrounds (Nat.not_lt_zero _)
  | succ rounds ih =>
      rw [run]
      rcases hbody state hstate with ⟨state', hnext, hstate', hlt⟩ | ⟨result, hdone, hpost⟩
      · rw [hnext]
        apply ih hstate'
        omega
      · rw [hdone]
        exact ⟨result, rfl, hpost⟩

end Loop
