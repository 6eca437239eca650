import Mathlib.Data.Nat.Notation

/-!
# Running a program to its end

A `Program σ` takes steps on states `σ` until one has ended; a step is told how many more may follow
it.  `complete n` takes at most `n` steps.  Two programs are compared step by step: when related
states have related successors, and every step lowers a rank, both come to their end in related
states (`exists_complete_of_related`).
-/

universe u v

/-- The states that have ended, and the step from one that has not. -/
structure Program (σ : Type u) where
  ended : σ → Bool
  next : ℕ → σ → Option σ

namespace Program

variable {σ : Type u} {τ : Type v} {P : Program σ} {Q : Program τ}

/-- The state in which the program ends, `none` when a step is not possible or `n` steps do not
suffice. -/
def complete (P : Program σ) : ℕ → σ → Option σ
  | 0, s => if P.ended s then some s else none
  | n + 1, s => if P.ended s then some s else (P.next n s).bind (P.complete n)

theorem complete_of_ended {s : σ} (h : P.ended s = true) (n : ℕ) :
  P.complete n s = some s
  := by
  cases n <;> simp [complete, h]

theorem complete_succ {s : σ} (h : P.ended s = false) (n : ℕ) :
  P.complete (n + 1) s = (P.next n s).bind (P.complete n)
  := by
  simp [complete, h]

/-- Two programs end in related states when from related ones, as long as they have not ended, both
can make a step to related ones, and every step lowers a rank. -/
theorem exists_complete_of_related (R : σ → τ → Prop) (rank : σ → ℕ)
    (hended : ∀ {s t}, R s t → P.ended s = Q.ended t)
    (hstep : ∀ {s t} (n : ℕ), R s t → P.ended s = false →
      ∃ s' t', P.next n s = some s' ∧ Q.next n t = some t' ∧ R s' t' ∧ rank s' < rank s)
    {n : ℕ} {s : σ} {t : τ} (hstart : R s t) (hrank : rank s ≤ n) :
  ∃ s' t', P.complete n s = some s' ∧ Q.complete n t = some t' ∧ R s' t'
  := by
  induction n generalizing s t with
  | zero =>
      cases hs : P.ended s with
      | true => exact ⟨s, t, complete_of_ended hs 0, complete_of_ended (hended hstart ▸ hs) 0, hstart⟩
      | false =>
          obtain ⟨s', t', -, -, -, hlt⟩ := hstep 0 hstart hs
          exact absurd (Nat.lt_of_lt_of_le hlt hrank) (Nat.not_lt_zero _)
  | succ n ih =>
      cases hs : P.ended s with
      | true =>
          have ht : Q.ended t = true := hended hstart ▸ hs
          exact ⟨s, t, complete_of_ended hs _, complete_of_ended ht _, hstart⟩
      | false =>
          obtain ⟨s₁, t₁, hs₁, ht₁, hrelated, hlt⟩ := hstep n hstart hs
          obtain ⟨s', t', hs', ht', hrelated'⟩ :=
            ih hrelated (Nat.le_of_lt_succ (Nat.lt_of_lt_of_le hlt hrank))
          refine ⟨s', t', ?_, ?_, hrelated'⟩
          · rw [complete_succ hs, hs₁]
            apply hs'
          · rw [complete_succ (hended hstart ▸ hs), ht₁]
            apply ht'

end Program
