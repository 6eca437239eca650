import Mathlib.Logic.Relation

/-!
# Chains of successors

A relation `r` in which everything has at most one successor falls into chains, the classes of
`EqvGen r`.  What has no successor ends its chain, so that a chain has one such element at most.
`extend r d s` adds the successor `s` of `d` to a relation.
-/

universe u

namespace Chain

open Relation

variable {α : Type u} {r : α → α → Prop}

/-- Two elements of a chain that have no successor are the same. -/
theorem eq_of_eqvGen {a b : α} (hr : Relator.RightUnique r) (h : EqvGen r a b)
    (ha : ∀ c, ¬r a c) (hb : ∀ c, ¬r b c) :
  a = b
  := by
  have hjoin : Equivalence (Join (ReflTransGen r)) := by
    apply equivalence_join_reflTransGen
    intro x y z hy hz
    obtain rfl := hr hy hz
    exact ⟨y, ReflGen.refl, ReflTransGen.refl⟩
  have hmono : ∀ x y, r x y → Join (ReflTransGen r) x y := by
    intro x y hxy
    exact ⟨y, ReflTransGen.single hxy, ReflTransGen.refl⟩
  obtain ⟨c, hac, hbc⟩ := hjoin.eqvGen_iff.mp (EqvGen.mono hmono a b h)
  rw [reflTransGen_iff_eq ha] at hac
  rw [reflTransGen_iff_eq hb] at hbc
  rw [← hac, ← hbc]

/-- The relation `r` with `s` as another successor of `d`. -/
def extend (r : α → α → Prop) (d s : α) : α → α → Prop :=
  fun a b => r a b ∨ a = d ∧ b = s

/-- A new successor that has none itself is reached from where its predecessor is, and nothing else
is reached on the way through it. -/
theorem transGen_of_extend {d s a b : α} (hs : ∀ c, ¬r s c) (hne : s ≠ d)
    (h : TransGen (extend r d s) a b) :
  TransGen r a b ∨ b = s ∧ ReflTransGen r a d
  := by
  induction h with
  | single h =>
      rcases h with h | ⟨rfl, rfl⟩
      · exact .inl (.single h)
      · exact .inr ⟨rfl, .refl⟩
  | tail _ h ih =>
      rcases ih with hab | ⟨rfl, -⟩
      · rcases h with h | ⟨rfl, rfl⟩
        · exact .inl (hab.tail h)
        · exact .inr ⟨rfl, hab.to_reflTransGen⟩
      · rcases h with h | ⟨h, -⟩
        · exact absurd h (hs _)
        · exact absurd h hne

end Chain
