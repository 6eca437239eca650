import Mathlib.Logic.Relation

/-!
# Transition systems

A `TransitionSystem σ α` has states `σ` and labels `α`: a set of initial states and a partial step
function, deterministic once the label is known, so that every choice the environment makes
is a part of the label.  A run is the list of its transitions.  What every transition of a run
preserves holds along the run (`Run.invariant`), also what says something about the transitions so far
(`Run.history`), and what every transition keeps once it holds holds from then on (`Run.stable`).  `execute` computes the run of a list of labels.
-/

universe u v

/-- A labelled transition system whose steps are determined by their label. -/
structure TransitionSystem (σ : Type u) (α : Type v) where
  /-- The states a run may start from. -/
  init : σ → Prop
  /-- The state a label leads to, `none` when it is not enabled. -/
  step : σ → α → Option σ

/-- A step taken: the state before it, its label and the state after it. -/
structure Transition (σ : Type u) (α : Type v) where
  source : σ
  label : α
  target : σ

namespace TransitionSystem

variable {σ : Type u} {α : Type v} {S : TransitionSystem σ α}

/-- `S.Run s ts s'`: the transitions `ts`, taken in order, lead from `s` to `s'`. -/
inductive Run (S : TransitionSystem σ α) : σ → List (Transition σ α) → σ → Prop where
  | nil (s : σ) : Run S s [] s
  | cons {s s' s'' : σ} {a : α} {ts : List (Transition σ α)} (hstep : S.step s a = some s')
      (hrun : Run S s' ts s'') : Run S s (⟨s, a, s'⟩ :: ts) s''

/-- Two runs, the second from where the first ends, form one run. -/
theorem Run.append {s s' s'' : σ} {ts ts' : List (Transition σ α)} (h : S.Run s ts s')
    (h' : S.Run s' ts' s'') :
  S.Run s (ts ++ ts') s''
  := by
  induction h with
  | nil => apply h'
  | cons hstep _ ih => apply Run.cons hstep (ih h')

/-- Every transition of a run is a step of the system. -/
theorem Run.step_of_mem {s s' : σ} {ts : List (Transition σ α)} (h : S.Run s ts s')
    {t : Transition σ α} (ht : t ∈ ts) :
  S.step t.source t.label = some t.target
  := by
  induction h with
  | nil => cases ht
  | cons hstep _ ih =>
      rcases List.mem_cons.mp ht with rfl | ht
      · apply hstep
      · apply ih ht

/-- A run splits at each of its transitions. -/
theorem Run.split_of_mem {s s' : σ} {ts : List (Transition σ α)} (h : S.Run s ts s')
    {t : Transition σ α} (ht : t ∈ ts) :
  ∃ before after, ts = before ++ t :: after ∧ S.Run s before t.source ∧ S.Run t.target after s'
  := by
  induction h with
  | nil => cases ht
  | @cons s₁ _ _ a ts hstep hrun ih =>
      rcases List.mem_cons.mp ht with rfl | ht
      · exact ⟨[], ts, rfl, Run.nil s₁, hrun⟩
      · obtain ⟨before, after, rfl, hbefore, hafter⟩ := ih ht
        exact ⟨⟨s₁, a, _⟩ :: before, after, rfl, Run.cons hstep hbefore, hafter⟩

/-- A run of a concatenation passes through a state between its two parts. -/
theorem Run.of_append {s s'' : σ} {ts ts' : List (Transition σ α)} (h : S.Run s (ts ++ ts') s'') :
  ∃ s', S.Run s ts s' ∧ S.Run s' ts' s''
  := by
  induction ts generalizing s with
  | nil => exact ⟨s, Run.nil s, h⟩
  | cons t ts ih =>
      cases h with
      | cons hstep hrun =>
          obtain ⟨s', hfirst, hsecond⟩ := ih hrun
          exact ⟨s', Run.cons hstep hfirst, hsecond⟩

/-- A run passes through the states before and after each of its transitions. -/
theorem Run.of_append_cons {s s' : σ} {before after : List (Transition σ α)} {t : Transition σ α}
    (h : S.Run s (before ++ t :: after) s') :
  S.Run s before t.source ∧ S.Run t.target after s'
  := by
  obtain ⟨s₁, hbefore, hafter⟩ := h.of_append
  cases hafter with
  | cons _ hrun => exact ⟨hbefore, hrun⟩

/-- A run with transitions ends where one of them leads. -/
theorem Run.exists_target {s s' : σ} {ts : List (Transition σ α)} (h : S.Run s ts s')
    (hne : ts ≠ []) :
  ∃ t ∈ ts, t.target = s'
  := by
  induction h with
  | nil => exact absurd rfl hne
  | @cons s₁ s₂ s₃ a ts _ hrun ih =>
      by_cases hnil : ts = []
      · subst hnil
        cases hrun
        exact ⟨_, List.mem_cons_self, rfl⟩
      · obtain ⟨t, ht, htarget⟩ := ih hnil
        exact ⟨t, List.mem_cons_of_mem _ ht, htarget⟩

/-- What holds at the end of a run, but not at its start, came to hold with a transition after which
it held throughout. -/
theorem Run.exists_last_entry {s s' : σ} {ts : List (Transition σ α)} (h : S.Run s ts s')
    {P : σ → Prop} (hstart : ¬P s) (hend : P s') :
  ∃ before t after, ts = before ++ t :: after ∧ ¬P t.source ∧ ∀ t' ∈ t :: after, P t'.target
  := by
  have hcases : P s ∧ (∀ t ∈ ts, P t.target)
      ∨ ∃ before t after, ts = before ++ t :: after ∧ ¬P t.source
        ∧ ∀ t' ∈ t :: after, P t'.target := by
    clear hstart
    induction h with
    | nil => exact .inl ⟨hend, by simp⟩
    | @cons s₁ s₂ _ a ts _ _ ih =>
        rcases ih hend with ⟨hs₂, hts⟩ | ⟨before, t, after, rfl, hsource, htargets⟩
        · have htargets : ∀ t ∈ (⟨s₁, a, s₂⟩ : Transition σ α) :: ts, P t.target := by
            rw [List.forall_mem_cons]
            exact ⟨hs₂, hts⟩
          by_cases hs₁ : P s₁
          · exact .inl ⟨hs₁, htargets⟩
          · exact .inr ⟨[], _, ts, rfl, hs₁, htargets⟩
        · exact .inr ⟨_ :: before, t, after, rfl, hsource, htargets⟩
  rcases hcases with ⟨hs, -⟩ | hentry
  · exact absurd hs hstart
  · apply hentry

/-- What holds at the start of a run and is preserved by each of its transitions holds at its
end.  An assumption on the transitions of the run is at hand through `t ∈ ts`. -/
theorem Run.invariant {s s' : σ} {ts : List (Transition σ α)} (h : S.Run s ts s')
    {I : σ → Prop} (hinit : I s)
    (hstep : ∀ t ∈ ts, S.step t.source t.label = some t.target → I t.source → I t.target) :
  I s'
  := by
  induction h with
  | nil => apply hinit
  | @cons s₁ s₂ _ a _ h₁ _ ih =>
      apply ih
      · exact hstep ⟨s₁, a, s₂⟩ List.mem_cons_self h₁ hinit
      · intro t ht
        exact hstep t (List.mem_cons_of_mem _ ht)

/-- An invariant of a run holds before each of its transitions. -/
theorem Run.invariant_source {s s' : σ} {ts : List (Transition σ α)} (h : S.Run s ts s')
    (I : σ → Prop) (hinit : I s)
    (hstep : ∀ t ∈ ts, S.step t.source t.label = some t.target → I t.source → I t.target)
    {t : Transition σ α} (ht : t ∈ ts) :
  I t.source
  := by
  obtain ⟨before, after, rfl, hbefore, -⟩ := h.split_of_mem ht
  apply hbefore.invariant hinit
  intro t' ht'
  exact hstep t' (List.mem_append_left _ ht')

/-- An invariant of a run holds after each of its transitions. -/
theorem Run.invariant_target {s s' : σ} {ts : List (Transition σ α)} (h : S.Run s ts s')
    (I : σ → Prop) (hinit : I s)
    (hstep : ∀ t ∈ ts, S.step t.source t.label = some t.target → I t.source → I t.target)
    {t : Transition σ α} (ht : t ∈ ts) :
  I t.target
  := by
  apply hstep t ht (h.step_of_mem ht)
  apply h.invariant_source I hinit hstep ht

/-- What holds of a state together with the transitions that have led to it, at first with none, and
what each transition keeps, holds of the end of a run together with all its transitions. -/
theorem Run.history {s s' : σ} {ts : List (Transition σ α)} (h : S.Run s ts s')
    {I : List (Transition σ α) → σ → Prop} (hinit : I [] s)
    (hstep : ∀ before t, S.step t.source t.label = some t.target → I before t.source →
      I (before ++ [t]) t.target) :
  I ts s'
  := by
  have hfrom : ∀ before, I before s → I (before ++ ts) s' := by
    clear hinit
    induction h with
    | nil =>
        intro before hbefore
        rwa [List.append_nil]
    | @cons s₁ s₂ _ a ts h₁ _ ih =>
        intro before hbefore
        rw [List.append_cons]
        apply ih
        exact hstep before ⟨s₁, a, s₂⟩ h₁ hbefore
  exact hfrom [] hinit

/-- A function of the state that no transition of a run changes has the same value before and
after every transition. -/
theorem Run.stable {β : Type*} {s s' : σ} {ts : List (Transition σ α)} (h : S.Run s ts s')
    (f : σ → β) (hstep : ∀ t ∈ ts, f t.target = f t.source) :
  ∀ t ∈ ts, f t.target = f s
  := by
  induction h with
  | nil => intro t ht; cases ht
  | @cons s₁ s₂ _ a _ h₁ _ ih =>
      have hhead := hstep ⟨s₁, a, s₂⟩ List.mem_cons_self
      intro t ht
      rcases List.mem_cons.mp ht with rfl | ht
      · apply hhead
      · rw [ih (fun t' ht' => hstep t' (List.mem_cons_of_mem _ ht')) t ht]
        apply hhead

/-- An event that brings the system into states it never leaves, and in which the event does not
happen, happens at most once in a run. -/
theorem Run.countP_le_one {s s' : σ} {ts : List (Transition σ α)} (h : S.Run s ts s')
    {event : Transition σ α → Bool} (closed : σ → Prop)
    (hbrings : ∀ t ∈ ts, event t = true → closed t.target)
    (hstays : ∀ t ∈ ts, closed t.source → closed t.target ∧ event t = false) :
  ts.countP event ≤ 1 ∧ (closed s → ts.countP event = 0)
  := by
  induction h with
  | nil => simp
  | @cons s₁ s₂ _ a ts _ _ ih =>
      obtain ⟨hle, hzero⟩ := ih (fun t ht => hbrings t (List.mem_cons_of_mem _ ht))
        (fun t ht => hstays t (List.mem_cons_of_mem _ ht))
      have hhead := hstays ⟨s₁, a, s₂⟩ List.mem_cons_self
      cases hevent : event ⟨s₁, a, s₂⟩ with
      | true =>
          have hrest := hzero (hbrings _ List.mem_cons_self hevent)
          rw [List.countP_cons_of_pos hevent, hrest]
          refine ⟨Nat.le_refl 1, fun hclosed => ?_⟩
          rw [(hhead hclosed).2] at hevent
          cases hevent
      | false =>
          rw [List.countP_cons_of_neg (by simp [hevent])]
          exact ⟨hle, fun hclosed => hzero (hhead hclosed).1⟩

/-- Events that a measure of the state counts happen no more often than the measure grows. -/
theorem Run.countP_add_le {s s' : σ} {ts : List (Transition σ α)} (h : S.Run s ts s')
    {event : Transition σ α → Bool} (f : σ → Nat)
    (hstep : ∀ t ∈ ts, (if event t = true then 1 else 0) + f t.source ≤ f t.target) :
  ts.countP event + f s ≤ f s'
  := by
  induction h with
  | nil => simp
  | @cons s₁ s₂ _ a ts _ _ ih =>
      have hhead := hstep ⟨s₁, a, s₂⟩ List.mem_cons_self
      have hrest := ih fun t ht => hstep t (List.mem_cons_of_mem _ ht)
      rw [List.countP_cons]
      simp only at hhead
      omega

/-- A measure of the state that grows with events only, by one with each, grows no more often than
these happen. -/
theorem Run.le_add_countP {s s' : σ} {ts : List (Transition σ α)} (h : S.Run s ts s')
    (event : Transition σ α → Bool) (f : σ → Nat)
    (hstep : ∀ t ∈ ts, f t.target ≤ f t.source + if event t = true then 1 else 0) :
  f s' ≤ f s + ts.countP event
  := by
  induction h with
  | nil => simp
  | @cons s₁ s₂ _ a ts _ _ ih =>
      have hhead := hstep ⟨s₁, a, s₂⟩ List.mem_cons_self
      have hrest := ih fun t ht => hstep t (List.mem_cons_of_mem _ ht)
      rw [List.countP_cons]
      simp only at hhead
      omega

/-- Events that lower a rank no transition raises happen no more often than the rank has room. -/
theorem Run.countP_add_rank_le {s s' : σ} {ts : List (Transition σ α)} (h : S.Run s ts s')
    (event : Transition σ α → Bool) (rank : σ → Nat)
    (hstep : ∀ t ∈ ts, (if event t = true then 1 else 0) + rank t.target ≤ rank t.source) :
  ts.countP event + rank s' ≤ rank s
  := by
  induction h with
  | nil => simp
  | @cons s₁ s₂ _ a ts _ _ ih =>
      have hhead := hstep ⟨s₁, a, s₂⟩ List.mem_cons_self
      have hrest := ih fun t ht => hstep t (List.mem_cons_of_mem _ ht)
      rw [List.countP_cons]
      simp only at hhead
      omega

/-- When from every state of an invariant that is not yet a goal a step is possible that keeps the
invariant and lowers a rank, a run leads to a goal. -/
theorem exists_run {I goal : σ → Prop} {P : Transition σ α → Prop} (rank : σ → Nat)
    (hstep : ∀ s, I s → ¬goal s → ∃ a s', S.step s a = some s' ∧ P ⟨s, a, s'⟩ ∧ I s'
      ∧ rank s' < rank s) {s : σ} (h : I s) :
  ∃ ts s', S.Run s ts s' ∧ (∀ t ∈ ts, P t) ∧ I s' ∧ goal s'
  := by
  induction hn : rank s using Nat.strongRecOn generalizing s with
  | ind n ih =>
      by_cases hgoal : goal s
      · exact ⟨[], s, .nil s, by simp, h, hgoal⟩
      · obtain ⟨a, s₁, hs₁, hP, hI, hlt⟩ := hstep s h hgoal
        obtain ⟨ts, s', hrun, hts, hend⟩ := ih (rank s₁) (hn ▸ hlt) hI rfl
        refine ⟨⟨s, a, s₁⟩ :: ts, s', .cons hs₁ hrun, ?_, hend⟩
        rw [List.forall_mem_cons]
        exact ⟨hP, hts⟩

/-! ### Executions -/

/-- The state a list of labels leads to, `none` when a label is not enabled or a transition
fails the check. -/
def execute (S : TransitionSystem σ α) (check : Transition σ α → Bool) : σ → List α → Option σ
  | s, [] => some s
  | s, a :: as =>
      match S.step s a with
      | none => none
      | some s' => if check ⟨s, a, s'⟩ then S.execute check s' as else none

/-- A successful execution is a run with the given labels, all of whose transitions pass the
check. -/
theorem run_of_execute_labels {check : Transition σ α → Bool} {as : List α} {s s' : σ}
    (h : S.execute check s as = some s') :
  ∃ ts, S.Run s ts s' ∧ (∀ t ∈ ts, check t = true) ∧ ts.map Transition.label = as
  := by
  induction as generalizing s with
  | nil =>
      obtain rfl := Option.some.inj h
      exact ⟨[], Run.nil s, by simp, rfl⟩
  | cons a as ih =>
      simp only [execute] at h
      split at h
      · cases h
      · rename_i s₁ hstep
        split at h
        · rename_i hcheck
          obtain ⟨ts, hrun, hts, rfl⟩ := ih h
          use ⟨s, a, s₁⟩ :: ts, Run.cons hstep hrun
          simp only [List.mem_cons, forall_eq_or_imp, List.map_cons, and_true]
          exact ⟨hcheck, hts⟩
        · cases h

/-- A successful execution is a run all of whose transitions pass the check. -/
theorem run_of_execute {check : Transition σ α → Bool} {as : List α} {s s' : σ}
    (h : S.execute check s as = some s') :
  ∃ ts, S.Run s ts s' ∧ ∀ t ∈ ts, check t = true
  := by
  obtain ⟨ts, hrun, hts, -⟩ := run_of_execute_labels h
  exact ⟨ts, hrun, hts⟩

/-- A label that is enabled after an execution ends a run. -/
theorem exists_run_of_execute {as : List α} {a : α} {s : σ} {check : σ → σ → Bool}
    (h : (S.execute (fun _ => true) s as).any
      (fun s₁ => (S.step s₁ a).any (check s₁)) = true) :
  ∃ ts s₁ s₂, S.Run s (ts ++ [⟨s₁, a, s₂⟩]) s₂ ∧ check s₁ s₂ = true
  := by
  obtain ⟨s₁, hs₁, h⟩ := (Option.any_eq_true _ _).mp h
  obtain ⟨s₂, hs₂, hcheck⟩ := (Option.any_eq_true _ _).mp h
  obtain ⟨ts, hrun, -⟩ := run_of_execute hs₁
  exact ⟨ts, s₁, s₂, hrun.append (.cons hs₂ (.nil s₂)), hcheck⟩

/-- A run whose labels are enabled, but fail the check, has a transition that fails it. -/
theorem exists_failing_of_execute {check : Transition σ α → Bool} {as : List α} {s s' : σ}
    (h : S.execute (fun _ => true) s as = some s') (hcheck : S.execute check s as = none) :
  ∃ ts, S.Run s ts s' ∧ ∃ t ∈ ts, check t = false
  := by
  induction as generalizing s with
  | nil => cases hcheck
  | cons a as ih =>
      simp only [execute, if_true] at h hcheck
      split at h
      · cases h
      · rename_i s₁ hstep
        rw [hstep] at hcheck
        simp only at hcheck
        split at hcheck
        · obtain ⟨ts, hrun, t, ht, hfails⟩ := ih h hcheck
          exact ⟨_, Run.cons hstep hrun, t, List.mem_cons_of_mem _ ht, hfails⟩
        · rename_i hfails
          obtain ⟨ts, hrun, -⟩ := run_of_execute h
          exact ⟨_, Run.cons hstep hrun, _, List.mem_cons_self, Bool.not_eq_true _ ▸ hfails⟩

end TransitionSystem
