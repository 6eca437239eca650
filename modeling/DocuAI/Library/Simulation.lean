import DocuAI.Library.Transition

/-!
# Simulations

An abstract system follows a concrete one through a view of its states: each step of the concrete
system is one step of the abstract one, or one it does not see.  Then the runs of the concrete system
are runs of the abstract one, and what holds of these can be read off at the view.
-/

universe u v u' v'

namespace TransitionSystem

/-- `T` follows `S` through `view`, on the states of an invariant of `S`. -/
structure Simulation {σ : Type u} {α : Type v} {τ : Type u'} {β : Type v'}
    (S : TransitionSystem σ α) (T : TransitionSystem τ β) where
  view : σ → τ
  /-- The step that a transition is for `T`, `none` when it does not see it. -/
  action : Transition σ α → Option β
  invariant : σ → Prop
  start : ∀ s, S.init s → invariant s ∧ T.init (view s)
  keeps : ∀ t : Transition σ α, S.step t.source t.label = some t.target → invariant t.source →
    invariant t.target
  follows : ∀ t : Transition σ α, S.step t.source t.label = some t.target → invariant t.source →
    match action t with
    | none => view t.target = view t.source
    | some b => T.step (view t.source) b = some (view t.target)

namespace Simulation

variable {σ : Type u} {α : Type v} {τ : Type u'} {β : Type v'}
  {S : TransitionSystem σ α} {T : TransitionSystem τ β}

/-- Along a run of `S` there is a run of `T`, with the labels that the transitions are for `T`. -/
theorem run (sim : Simulation S T) {s s' : σ} {ts : List (Transition σ α)} (h : S.Run s ts s')
    (hs : sim.invariant s) :
  ∃ us, T.Run (sim.view s) us (sim.view s')
    ∧ us.map Transition.label = ts.filterMap sim.action
  := by
  induction h with
  | nil => exact ⟨[], Run.nil _, rfl⟩
  | @cons s₁ s₂ _ a ts hstep _ ih =>
      have hfollows := sim.follows ⟨s₁, a, s₂⟩ hstep hs
      obtain ⟨us, hus, hlabels⟩ := ih (sim.keeps ⟨s₁, a, s₂⟩ hstep hs)
      cases haction : sim.action ⟨s₁, a, s₂⟩ with
      | none =>
          rw [haction] at hfollows
          rw [List.filterMap_cons_none haction]
          exact ⟨us, hfollows ▸ hus, hlabels⟩
      | some b =>
          rw [haction] at hfollows
          rw [List.filterMap_cons_some haction]
          refine ⟨_, Run.cons hfollows hus, ?_⟩
          rw [List.map_cons, hlabels]

/-- A run of `S` from an initial state ends in a state whose view `T` can reach from an initial
one. -/
theorem run_of_init (sim : Simulation S T) {s s' : σ} {ts : List (Transition σ α)}
    (h : S.Run s ts s') (hinit : S.init s) :
  T.init (sim.view s) ∧ ∃ us, T.Run (sim.view s) us (sim.view s')
    ∧ us.map Transition.label = ts.filterMap sim.action
  := by
  obtain ⟨hinvariant, hview⟩ := sim.start s hinit
  exact ⟨hview, sim.run h hinvariant⟩

end Simulation

end TransitionSystem
