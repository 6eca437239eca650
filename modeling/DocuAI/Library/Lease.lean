import Mathlib.Data.Nat.Notation
import Mathlib.Logic.Function.Basic
import Mathlib.Order.Basic

/-!
# Leases

A lease on one resource is free, held, or closed for good.  A held lease carries the time it was
last renewed, if that is known, and unless that is at most `ttl` ago anybody may expire the lease or
acquire it.  Nobody is told that they lost a lease: a holder goes on acting as one until it lets go
of its own accord.

Mutual exclusion therefore rests on an assumption about the holders.  `Guarded` says that an
expired lease has no holder left, and `Prompt` that every holder renews in time.  The first is what
the argument needs, and the second implies it (`guarded_of_prompt`).
-/

universe u

namespace Lease

/-- What is recorded about the resource. -/
inductive Grant where
  | free
  | held (renewedAt : Option ℕ)
  | closed
  deriving DecidableEq

/-- The recorded grant, and for everybody who acts as a holder the time of their last renewal. -/
structure State (ι : Type u) where
  now : ℕ
  grant : Grant
  holder : ι → Option ℕ

variable {ι : Type u}

/-- The lease is held, and its last renewal, if there is one, is more than `ttl` ago. -/
def State.Expired (ttl : ℕ) (s : State ι) : Prop :=
  ∃ renewedAt, s.grant = .held renewedAt ∧ ∀ r ∈ renewedAt, r + ttl < s.now

/-- Nobody acts as a holder. -/
def State.Vacant (s : State ι) : Prop :=
  ∀ i, s.holder i = none

/-- What can happen to a lease.  A holder that lets go leaves the lease `free`, `closed`, or as it
found it; `touch`, `expire` and `close` are acts of bystanders. -/
inductive Step [DecidableEq ι] (ttl : ℕ) : State ι → State ι → Prop where
  | tick {s : State ι} {now : ℕ} (h : s.now ≤ now) :
      Step ttl s ⟨now, s.grant, s.holder⟩
  | acquire {s : State ι} (i : ι) (h : s.grant = .free ∨ s.Expired ttl) :
      Step ttl s ⟨s.now, .held (some s.now), Function.update s.holder i (some s.now)⟩
  | renew {s : State ι} {r : Option ℕ} (i : ι) (h : s.grant = .held r) (hi : s.holder i ≠ none) :
      Step ttl s ⟨s.now, .held (some s.now), Function.update s.holder i (some s.now)⟩
  | touch {s : State ι} {r : Option ℕ} (h : s.grant = .held r) :
      Step ttl s ⟨s.now, .held (some s.now), s.holder⟩
  | expire {s : State ι} (h : s.Expired ttl) :
      Step ttl s ⟨s.now, .free, s.holder⟩
  | release {s : State ι} {r : Option ℕ} (i : ι) (h : s.grant = .held r) (hi : s.holder i ≠ none) :
      Step ttl s ⟨s.now, .free, Function.update s.holder i none⟩
  | close {s : State ι} :
      Step ttl s ⟨s.now, .closed, s.holder⟩
  | finish {s : State ι} (i : ι) :
      Step ttl s ⟨s.now, .closed, Function.update s.holder i none⟩
  | drop {s : State ι} (i : ι) :
      Step ttl s ⟨s.now, s.grant, Function.update s.holder i none⟩

/-- What is true of a lease whose holders are few enough. -/
structure Valid (s : State ι) : Prop where
  /-- At most one party acts as a holder. -/
  unique : ∀ i j, s.holder i ≠ none → s.holder j ≠ none → i = j
  /-- Nobody holds a free lease. -/
  vacant_of_free : s.grant = .free → s.Vacant
  /-- A holder renewed the lease no later than anybody did. -/
  renewed : ∀ i b renewedAt, s.holder i = some b → s.grant = .held renewedAt →
    ∃ r ∈ renewedAt, b ≤ r
  /-- No renewal lies in the future. -/
  past : ∀ i b, s.holder i = some b → b ≤ s.now

/-- An expired lease has no holder left. -/
def Guarded (ttl : ℕ) (s : State ι) : Prop :=
  s.Expired ttl → s.Vacant

/-- As long as the lease is held, whoever acts as a holder renewed it at most `ttl` ago. -/
def Prompt (ttl : ℕ) (s : State ι) : Prop :=
  ∀ r, s.grant = .held r → ∀ i b, s.holder i = some b → s.now ≤ b + ttl

/-- Holders that renew in time are gone when the lease expires. -/
theorem guarded_of_prompt {ttl : ℕ} {s : State ι} (h : Valid s) (hprompt : Prompt ttl s) :
  Guarded ttl s
  := by
  rintro ⟨renewedAt, hgrant, hlt⟩ i
  cases hi : s.holder i with
  | none => rfl
  | some b =>
      obtain ⟨r, hr, hb⟩ := h.renewed i b renewedAt hi hgrant
      have hr := hlt r hr
      have hnow := hprompt renewedAt hgrant i b hi
      omega

/-- A vacant lease that is not free becomes valid when one party takes it. -/
theorem valid_of_vacant [DecidableEq ι] {s : State ι} (h : s.Vacant) (i : ι) :
  Valid ⟨s.now, .held (some s.now), Function.update s.holder i (some s.now)⟩
  := by
  have hother : ∀ j b, Function.update s.holder i (some s.now) j = some b → j = i ∧ b = s.now := by
    intro j b hj
    by_cases hji : j = i
    · subst hji
      rw [Function.update_self] at hj
      exact ⟨rfl, (Option.some.inj hj).symm⟩
    · rw [Function.update_of_ne hji, h j] at hj
      cases hj
  constructor
  · intro j k hj hk
    obtain ⟨b, hb⟩ := Option.ne_none_iff_exists'.mp hj
    obtain ⟨c, hc⟩ := Option.ne_none_iff_exists'.mp hk
    rw [(hother j b hb).1, (hother k c hc).1]
  · intro hfree
    cases hfree
  · intro j b renewedAt hj hgrant
    cases hgrant
    exact ⟨s.now, rfl, Nat.le_of_eq (hother j b hj).2⟩
  · intro j b hj
    exact Nat.le_of_eq (hother j b hj).2

/-- A valid lease stays valid when holders are lost and the grant becomes no more restrictive than
its holders allow. -/
theorem Valid.mono {s s' : State ι} (h : Valid s)
    (hnow : s.now ≤ s'.now)
    (hholder : ∀ i b, s'.holder i = some b → s.holder i = some b)
    (hfree : s'.grant = .free → s'.Vacant)
    (hheld : ∀ r, s'.grant = .held r → s.grant = .held r ∨ r = some s.now) :
  Valid s'
  := by
  have hne : ∀ i, s'.holder i ≠ none → s.holder i ≠ none := by
    intro i hi
    obtain ⟨b, hb⟩ := Option.ne_none_iff_exists'.mp hi
    rw [hholder i b hb]
    apply Option.some_ne_none
  constructor
  · intro i j hi hj
    exact h.unique i j (hne i hi) (hne j hj)
  · apply hfree
  · intro i b r hi hr
    rcases hheld r hr with hr | rfl
    · exact h.renewed i b r (hholder i b hi) hr
    · exact ⟨s.now, rfl, h.past i b (hholder i b hi)⟩
  · intro i b hi
    exact Nat.le_trans (h.past i b (hholder i b hi)) hnow

/-- Every step keeps a guarded lease valid. -/
theorem Step.valid [DecidableEq ι] {ttl : ℕ} {s s' : State ι} (hstep : Step ttl s s')
    (hguarded : Guarded ttl s) (h : Valid s) :
  Valid s'
  := by
  have hupdate : ∀ (i j : ι) (b : ℕ), Function.update s.holder i none j = some b →
      s.holder j = some b := by
    intro i j b hj
    by_cases hji : j = i
    · subst hji
      rw [Function.update_self] at hj
      cases hj
    · rwa [Function.update_of_ne hji] at hj
  cases hstep with
  | tick hnow =>
      exact h.mono hnow (fun _ _ hi => hi) h.vacant_of_free (fun r hr => .inl hr)
  | acquire i hclaim =>
      apply valid_of_vacant
      rcases hclaim with hfree | hexpired
      · exact h.vacant_of_free hfree
      · exact hguarded hexpired
  | renew i hr hi =>
      -- the holder is the only one, so that nobody else's renewal matters
      have hvacant : State.Vacant ⟨s.now, s.grant, Function.update s.holder i none⟩ := by
        intro j
        by_cases hji : j = i
        · subst hji
          apply Function.update_self
        · by_contra hj
          apply hji
          apply h.unique j i _ hi
          intro hnone
          apply hj
          rw [← hnone]
          exact Function.update_of_ne hji _ _
      have hvalid := valid_of_vacant hvacant i
      rw [Function.update_idem] at hvalid
      apply hvalid
  | touch hr =>
      refine h.mono (Nat.le_refl _) (fun _ _ hi => hi) ?_ ?_
      · intro hfree
        cases hfree
      · rintro r ⟨⟩
        exact .inr rfl
  | expire hexpired =>
      refine h.mono (Nat.le_refl _) (fun _ _ hi => hi) ?_ ?_
      · intro _
        exact hguarded hexpired
      · intro r hr
        cases hr
  | release i hr hi =>
      refine h.mono (Nat.le_refl _) (hupdate i) ?_ ?_
      · intro _ j
        cases hj : Function.update s.holder i none j with
        | none => exact hj
        | some b =>
            -- whoever is left would have been a second holder
            have hj' := hupdate i j b hj
            obtain rfl := h.unique j i (by rw [hj']; apply Option.some_ne_none) hi
            rw [Function.update_self] at hj
            cases hj
      · intro r hr
        cases hr
  | close =>
      refine h.mono (Nat.le_refl _) (fun _ _ hi => hi) ?_ ?_
      · intro hfree
        cases hfree
      · intro r hr
        cases hr
  | finish i =>
      refine h.mono (Nat.le_refl _) (hupdate i) ?_ ?_
      · intro hfree
        cases hfree
      · intro r hr
        cases hr
  | drop i =>
      refine h.mono (Nat.le_refl _) (hupdate i) ?_ ?_
      · intro hfree j
        cases hj : Function.update s.holder i none j with
        | none => exact hj
        | some b =>
            have hj' := hupdate i j b hj
            rw [h.vacant_of_free hfree j] at hj'
            cases hj'
      · intro r hr
        exact .inl hr

end Lease
