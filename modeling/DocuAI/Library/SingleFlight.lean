import DocuAI.Library.Table
import DocuAI.Library.Transition

/-!
# Single-flight caches

A cache in front of a slow probe.  A call is answered from the cache while that is fresh, unless the
call is forced; otherwise it waits for the probe that is under way, and starts one only if there is
none.  So one probe at most is under way at any time, and an answer is fresh, or that of a probe which
was under way when the call was made.
-/

universe u

namespace SingleFlight

inductive ProbePhase (α : Type u) where
  | running
  /-- The probe has its result, `none` when it has failed, but counts as under way still. -/
  | settled (result : Option α)
  | finished (result : Option α) (finishedAt : ℕ)

structure Probe (α : Type u) where
  id : ℕ
  startedAt : ℕ
  phase : ProbePhase α

inductive CallPhase (α : Type u) where
  | waiting (probeId : ℕ)
  | returned (answer : α)
  | rejected

structure Call (α : Type u) where
  id : ℕ
  force : Bool
  calledAt : ℕ
  phase : CallPhase α

/-- The reports that the probes have got so far, and when, are part of the state; no step reads
them. -/
structure State (ρ α : Type u) where
  now : ℕ
  cache : Option α
  refreshing : Option ℕ
  probes : Table (Probe.id : Probe α → ℕ)
  calls : Table (Call.id : Call α → ℕ)
  reports : List (ρ × ℕ)

inductive Label (ρ : Type u) where
  /-- Time passes. -/
  | tick (ms : ℕ)
  /-- A call, and the id of the probe if it starts one. -/
  | call (id : ℕ) (force : Bool) (probeId : ℕ)
  /-- A probe gets its report. -/
  | answer (probeId : ℕ) (report : ρ)
  | fail (probeId : ℕ)
  /-- A probe is no longer under way. -/
  | finish (probeId : ℕ)
  /-- A call goes on with the result of the probe it has waited for. -/
  | resume (callId : ℕ)

/-- The probe is under way. -/
def ProbePhase.underWay {α : Type u} : ProbePhase α → Bool
  | .running | .settled _ => true
  | .finished _ _ => false

def ProbePhase.result {α : Type u} : ProbePhase α → Option α
  | .running => none
  | .settled result | .finished result _ => result

section

variable {ρ α : Type u} (compute : ρ → ℕ → α) (checkedAt : α → ℕ) (ttl : ℕ)

/-- The answer of the cache to a call, if it is fresh. -/
def State.fresh (s : State ρ α) (force : Bool) : Option α :=
  s.cache.filter fun a => !force && s.now - checkedAt a < ttl

def step (s : State ρ α) : Label ρ → Option (State ρ α)
  | .tick ms => some { s with now := s.now + ms }
  | .call id force probeId =>
      match s.fresh checkedAt ttl force with
      | some a => do
          let calls ← s.calls.create { id, force, calledAt := s.now, phase := .returned a }
          some { s with calls }
      | none =>
          match s.refreshing with
          | some running => do
              let calls ← s.calls.create { id, force, calledAt := s.now, phase := .waiting running }
              some { s with calls }
          | none => do
              let probes ← s.probes.create { id := probeId, startedAt := s.now, phase := .running }
              let calls ← s.calls.create { id, force, calledAt := s.now, phase := .waiting probeId }
              some { s with refreshing := some probeId, probes, calls }
  | .answer probeId report => do
      let p ← s.probes.find probeId
      match p.phase with
      | .running =>
          let a := compute report s.now
          some
            { s with
              cache := some a
              probes := s.probes.put { p with phase := .settled (some a) }
              reports := s.reports ++ [(report, s.now)] }
      | _ => none
  | .fail probeId => do
      let p ← s.probes.find probeId
      match p.phase with
      | .running => some { s with probes := s.probes.put { p with phase := .settled none } }
      | _ => none
  | .finish probeId => do
      let p ← s.probes.find probeId
      match p.phase with
      | .settled result =>
          some
            { s with
              refreshing := none
              probes := s.probes.put { p with phase := .finished result s.now } }
      | _ => none
  | .resume callId => do
      let c ← s.calls.find callId
      match c.phase with
      | .waiting probeId => do
          let p ← s.probes.find probeId
          match p.phase with
          | .finished result _ =>
              let phase := result.elim .rejected .returned
              some { s with calls := s.calls.put { c with phase } }
          | _ => none
      | _ => none

/-- The cache, empty at the start. -/
def system : TransitionSystem (State ρ α) (Label ρ) where
  init s :=
    s.cache = none ∧ s.refreshing = none ∧ s.probes.rows = [] ∧ s.calls.rows = [] ∧ s.reports = []
  step := step compute checkedAt ttl

/-! ### What a step can be -/

/-- The steps of the cache. -/
inductive Steps (s : State ρ α) : State ρ α → Prop where
  | tick (ms : ℕ) : Steps s { s with now := s.now + ms }
  | hits {id : ℕ} {force : Bool} {a : α} {calls : Table (Call.id : Call α → ℕ)}
      (hcache : s.cache = some a) (hforce : force = false) (hfresh : s.now - checkedAt a < ttl)
      (hcalls : s.calls.create { id, force, calledAt := s.now, phase := .returned a } = some calls) :
      Steps s { s with calls }
  | joins {id probeId : ℕ} {force : Bool} {calls : Table (Call.id : Call α → ℕ)}
      (hrefreshing : s.refreshing = some probeId)
      (hcalls : s.calls.create { id, force, calledAt := s.now, phase := .waiting probeId }
        = some calls) :
      Steps s { s with calls }
  | starts {id probeId : ℕ} {force : Bool} {probes : Table (Probe.id : Probe α → ℕ)}
      {calls : Table (Call.id : Call α → ℕ)} (hrefreshing : s.refreshing = none)
      (hprobes : s.probes.create { id := probeId, startedAt := s.now, phase := .running }
        = some probes)
      (hcalls : s.calls.create { id, force, calledAt := s.now, phase := .waiting probeId }
        = some calls) :
      Steps s { s with refreshing := some probeId, probes, calls }
  | answers {p : Probe α} (report : ρ) (hp : s.probes.find p.id = some p)
      (hphase : p.phase = .running) :
      Steps s
        { s with
          cache := some (compute report s.now)
          probes := s.probes.put { p with phase := .settled (some (compute report s.now)) }
          reports := s.reports ++ [(report, s.now)] }
  | fails {p : Probe α} (hp : s.probes.find p.id = some p) (hphase : p.phase = .running) :
      Steps s { s with probes := s.probes.put { p with phase := .settled none } }
  | finishes {p : Probe α} {result : Option α} (hp : s.probes.find p.id = some p)
      (hphase : p.phase = .settled result) :
      Steps s
        { s with
          refreshing := none
          probes := s.probes.put { p with phase := .finished result s.now } }
  | resumes {c : Call α} {p : Probe α} {result : Option α} {finishedAt : ℕ}
      (hc : s.calls.find c.id = some c) (hwaiting : c.phase = .waiting p.id)
      (hp : s.probes.find p.id = some p) (hphase : p.phase = .finished result finishedAt) :
      Steps s { s with calls := s.calls.put { c with phase := result.elim .rejected .returned } }

variable {compute} {checkedAt} {ttl} {s s' : State ρ α}

theorem steps_of_step {label : Label ρ}
    (h : (system compute checkedAt ttl).step s label = some s') :
  Steps compute checkedAt ttl s s'
  := by
  change step compute checkedAt ttl s label = some s' at h
  cases label with
  | tick ms =>
      obtain rfl := Option.some.inj h
      exact .tick ms
  | call id force probeId =>
      simp only [step] at h
      split at h
      · rename_i a hfresh
        obtain ⟨hcache, hfresh⟩ := Option.filter_eq_some_iff.mp hfresh
        simp only [Bool.and_eq_true, Bool.not_eq_true', decide_eq_true_eq] at hfresh
        obtain ⟨calls, hcalls, h⟩ := Option.bind_eq_some_iff.mp h
        obtain rfl := Option.some.inj h
        exact .hits hcache hfresh.1 hfresh.2 hcalls
      · split at h
        · rename_i running hrefreshing
          obtain ⟨calls, hcalls, h⟩ := Option.bind_eq_some_iff.mp h
          obtain rfl := Option.some.inj h
          exact .joins hrefreshing hcalls
        · rename_i hrefreshing
          obtain ⟨probes, hprobes, h⟩ := Option.bind_eq_some_iff.mp h
          obtain ⟨calls, hcalls, h⟩ := Option.bind_eq_some_iff.mp h
          obtain rfl := Option.some.inj h
          exact .starts hrefreshing hprobes hcalls
  | answer probeId report =>
      obtain ⟨p, hp, hnext⟩ := Option.bind_eq_some_iff.mp h
      obtain rfl := Table.key_of_find hp
      split at hnext
      · rename_i hphase
        obtain rfl := Option.some.inj hnext
        exact .answers report hp hphase
      · cases hnext
  | fail probeId =>
      obtain ⟨p, hp, hnext⟩ := Option.bind_eq_some_iff.mp h
      obtain rfl := Table.key_of_find hp
      split at hnext
      · rename_i hphase
        obtain rfl := Option.some.inj hnext
        exact .fails hp hphase
      · cases hnext
  | finish probeId =>
      obtain ⟨p, hp, hnext⟩ := Option.bind_eq_some_iff.mp h
      obtain rfl := Table.key_of_find hp
      split at hnext
      · rename_i hphase
        obtain rfl := Option.some.inj hnext
        exact .finishes hp hphase
      · cases hnext
  | resume callId =>
      obtain ⟨c, hc, hnext⟩ := Option.bind_eq_some_iff.mp h
      obtain rfl := Table.key_of_find hc
      split at hnext
      · rename_i probeId hwaiting
        obtain ⟨p, hp, hresult⟩ := Option.bind_eq_some_iff.mp hnext
        obtain rfl := Table.key_of_find hp
        split at hresult
        · rename_i hphase
          obtain rfl := Option.some.inj hresult
          exact .resumes hc hwaiting hp hphase
        · cases hresult
      · cases hnext

/-! ### One probe at a time, and fresh answers -/

/-- The answer was computed from a report. -/
def Reported (compute : ρ → ℕ → α) (s : State ρ α) (a : α) : Prop :=
  ∃ report reportedAt, (report, reportedAt) ∈ s.reports ∧ a = compute report reportedAt

/-- The answer is that of a probe that was under way at the time. -/
def UnderWayAt (s : State ρ α) (calledAt : ℕ) (a : α) : Prop :=
  ∃ p ∈ s.probes.rows, ∃ finishedAt, p.phase = .finished (some a) finishedAt
    ∧ p.startedAt ≤ calledAt ∧ calledAt ≤ finishedAt

/-- What a call has got, or waits for. -/
def Served (checkedAt : α → ℕ) (ttl : ℕ) (s : State ρ α) (c : Call α) : Prop :=
  match c.phase with
  | .waiting probeId => ∃ p, s.probes.find probeId = some p ∧ p.startedAt ≤ c.calledAt
      ∧ ∀ result finishedAt, p.phase = .finished result finishedAt → c.calledAt ≤ finishedAt
  | .returned a =>
      c.force = false ∧ c.calledAt - checkedAt a < ttl ∨ UnderWayAt s c.calledAt a
  | .rejected => True

/-- What holds of every state. -/
structure Invariant (compute : ρ → ℕ → α) (checkedAt : α → ℕ) (ttl : ℕ) (s : State ρ α) :
    Prop where
  flight : ∀ p ∈ s.probes.rows, p.phase.underWay = true → s.refreshing = some p.id
  refreshing : ∀ probeId, s.refreshing = some probeId →
    ∃ p, s.probes.find probeId = some p ∧ p.phase.underWay = true
  started : ∀ p ∈ s.probes.rows, p.startedAt ≤ s.now
  cached : ∀ a, s.cache = some a → Reported compute s a
  results : ∀ p ∈ s.probes.rows, ∀ a, p.phase.result = some a → Reported compute s a
  calls : ∀ c ∈ s.calls.rows, Served checkedAt ttl s c ∧ c.calledAt ≤ s.now
  answers : ∀ c ∈ s.calls.rows, ∀ a, c.phase = .returned a → Reported compute s a

/-- Reports are kept. -/
theorem Reported.mono {a : α} (h : Reported compute s a) (hreports : s.reports ⊆ s'.reports) :
  Reported compute s' a
  := by
  obtain ⟨report, reportedAt, hmem, ha⟩ := h
  exact ⟨report, reportedAt, hreports hmem, ha⟩

/-- A probe stays, and stays finished as it was. -/
structure ProbesStay (s s' : State ρ α) : Prop where
  stays : ∀ p ∈ s.probes.rows, ∃ p', s'.probes.find p.id = some p'
    ∧ p'.startedAt = p.startedAt ∧ (p.phase.underWay = false → p' = p)
    ∧ ∀ result finishedAt, p'.phase = .finished result finishedAt →
      p' = p ∨ finishedAt = s.now
  now : s.now ≤ s'.now

theorem ProbesStay.of_eq (hprobes : s'.probes = s.probes) (hnow : s.now ≤ s'.now) :
  ProbesStay s s'
  := by
  refine ⟨fun p hp => ⟨p, ?_, rfl, fun _ => rfl, fun _ _ _ => .inl rfl⟩, hnow⟩
  rw [hprobes]
  exact Table.mem_rows_iff.mp hp

/-- What a call has got or waits for stays so. -/
theorem Served.mono {c : Call α} (h : Served checkedAt ttl s c) (hnow : c.calledAt ≤ s.now)
    (hstay : ProbesStay s s') :
  Served checkedAt ttl s' c
  := by
  unfold Served at h ⊢
  split
  · rename_i probeId hphase
    rw [hphase] at h
    obtain ⟨p, hp, hstarted, hfinished⟩ := h
    obtain ⟨p', hp', hsame, -, hcases⟩ := hstay.stays p (Table.mem_of_find hp)
    rw [Table.key_of_find hp] at hp'
    refine ⟨p', hp', hsame ▸ hstarted, fun result finishedAt hphase' => ?_⟩
    rcases hcases result finishedAt hphase' with rfl | rfl
    · exact hfinished result finishedAt hphase'
    · exact hnow
  · rename_i a hphase
    rw [hphase] at h
    rcases h with hcached | ⟨p, hp, finishedAt, hfinished, hle⟩
    · exact .inl hcached
    · obtain ⟨p', hp', -, hsame, -⟩ := hstay.stays p hp
      obtain rfl := hsame (by rw [hfinished]; rfl)
      exact .inr ⟨p', Table.mem_of_find hp', finishedAt, hfinished, hle⟩
  · trivial

/-- What a step does to the probes. -/
theorem Steps.probesStay (h : Steps compute checkedAt ttl s s') :
  ProbesStay s s'
  := by
  have hput {p : Probe α} (phase : ProbePhase α) {t : State ρ α} (hp : s.probes.find p.id = some p)
      (hunderWay : p.phase.underWay = true)
      (hfinished : ∀ result finishedAt, phase = .finished result finishedAt → finishedAt = s.now)
      (hprobes : t.probes = s.probes.put { p with phase }) (hnow : t.now = s.now) :
      ProbesStay s t := by
    refine ⟨fun q hq => ?_, hnow ▸ Nat.le_refl _⟩
    rw [hprobes, Table.find_put]
    by_cases hqp : q.id = p.id
    · have hq' := Table.mem_rows_iff.mp hq
      rw [hqp, hp] at hq'
      obtain rfl := Option.some.inj hq'
      rw [if_pos rfl]
      refine ⟨_, rfl, rfl, fun hnot => ?_, fun result finishedAt hphase =>
        .inr (hfinished result finishedAt hphase)⟩
      rw [hunderWay] at hnot
      cases hnot
    · rw [if_neg hqp]
      exact ⟨q, Table.mem_rows_iff.mp hq, rfl, fun _ => rfl, fun _ _ _ => .inl rfl⟩
  cases h with
  | tick ms => exact .of_eq rfl (Nat.le_add_right _ _)
  | hits | joins | resumes => exact .of_eq rfl (Nat.le_refl _)
  | starts _ hprobes =>
      refine ⟨fun p hp => ⟨p, ?_, rfl, fun _ => rfl, fun _ _ _ => .inl rfl⟩, Nat.le_refl _⟩
      exact Table.find_create_of_find hprobes (Table.mem_rows_iff.mp hp)
  | answers report hp hphase =>
      exact hput (.settled (some (compute report s.now))) hp (by rw [hphase]; rfl)
        (fun _ _ h => by cases h) rfl rfl
  | fails hp hphase =>
      exact hput (.settled none) hp (by rw [hphase]; rfl) (fun _ _ h => by cases h) rfl rfl
  | @finishes p result hp hphase =>
      refine hput (.finished result s.now) hp (by rw [hphase]; rfl) ?_ rfl rfl
      intro result' finishedAt hfinished
      cases hfinished
      rfl

theorem Steps.reports_subset (h : Steps compute checkedAt ttl s s') :
  s.reports ⊆ s'.reports
  := by
  cases h with
  | answers => exact List.subset_append_left _ _
  | _ => exact List.Subset.refl _

/-- What a probe that a step has changed has as its result. -/
theorem Steps.results (h : Steps compute checkedAt ttl s s') {p : Probe α}
    (hp : p ∈ s'.probes.rows) {a : α} (hresult : p.phase.result = some a) :
  (∃ q ∈ s.probes.rows, q.phase.result = some a) ∨ Reported compute s' a
  := by
  cases h with
  | tick | hits | joins | resumes => exact .inl ⟨p, hp, hresult⟩
  | starts _ hprobes =>
      change p ∈ Table.rows _ at hp
      rw [Table.rows_of_create hprobes, List.mem_append, List.mem_singleton] at hp
      rcases hp with hp | rfl
      · exact .inl ⟨p, hp, hresult⟩
      · cases hresult
  | answers report hq =>
      rcases Table.mem_rows_put_iff.mp hp with rfl | ⟨hp, -⟩
      · obtain rfl := Option.some.inj hresult
        exact .inr ⟨report, s.now, List.mem_append_right _ List.mem_cons_self, rfl⟩
      · exact .inl ⟨p, hp, hresult⟩
  | fails =>
      rcases Table.mem_rows_put_iff.mp hp with rfl | ⟨hp, -⟩
      · cases hresult
      · exact .inl ⟨p, hp, hresult⟩
  | finishes hq hphase =>
      rcases Table.mem_rows_put_iff.mp hp with rfl | ⟨hp, -⟩
      · exact .inl ⟨_, Table.mem_of_find hq, by rw [hphase]; exact hresult⟩
      · exact .inl ⟨p, hp, hresult⟩

/-- Every step has one probe at most under way. -/
theorem Steps.flight (h : Steps compute checkedAt ttl s s')
    (hflight : ∀ p ∈ s.probes.rows, p.phase.underWay = true → s.refreshing = some p.id) :
  ∀ p ∈ s'.probes.rows, p.phase.underWay = true → s'.refreshing = some p.id
  := by
  intro p hp hunderWay
  cases h with
  | tick | hits | joins | resumes => exact hflight p hp hunderWay
  | starts hrefreshing hprobes =>
      change p ∈ Table.rows _ at hp
      rw [Table.rows_of_create hprobes, List.mem_append, List.mem_singleton] at hp
      rcases hp with hp | rfl
      · cases hrefreshing.symm.trans (hflight p hp hunderWay)
      · rfl
  | @answers q _ hq hphase | @fails q hq hphase =>
      rcases Table.mem_rows_put_iff.mp hp with rfl | ⟨hp, -⟩
      · exact hflight q (Table.mem_of_find hq) (by rw [hphase]; rfl)
      · exact hflight p hp hunderWay
  | @finishes q _ hq hphase =>
      rcases Table.mem_rows_put_iff.mp hp with rfl | ⟨hp, hne⟩
      · cases hunderWay
      · have hunderWay_q := hflight q (Table.mem_of_find hq) (by rw [hphase]; rfl)
        have hid := hunderWay_q.symm.trans (hflight p hp hunderWay)
        exact absurd (Option.some.inj hid).symm hne

/-- The probe that calls join is under way after every step. -/
theorem Steps.refreshing (h : Steps compute checkedAt ttl s s')
    (hrefreshing : ∀ probeId, s.refreshing = some probeId →
      ∃ p, s.probes.find probeId = some p ∧ p.phase.underWay = true) :
  ∀ probeId, s'.refreshing = some probeId →
    ∃ p, s'.probes.find probeId = some p ∧ p.phase.underWay = true
  := by
  have hput {p : Probe α} {probeId : ℕ} (result : Option α) (hsome : s.refreshing = some probeId) :
      ∃ q, (s.probes.put { p with phase := .settled result }).find probeId = some q
        ∧ q.phase.underWay = true := by
    rw [Table.find_put]
    split
    · exact ⟨_, rfl, rfl⟩
    · exact hrefreshing probeId hsome
  intro probeId hsome
  cases h with
  | tick | hits | joins | resumes => exact hrefreshing probeId hsome
  | starts _ hprobes =>
      obtain rfl := Option.some.inj hsome
      exact ⟨_, (Table.find_create hprobes _).trans (if_pos rfl), rfl⟩
  | answers => exact hput _ hsome
  | fails => exact hput _ hsome
  | finishes => cases hsome

/-- No probe has started later than now. -/
theorem Steps.started (h : Steps compute checkedAt ttl s s')
    (hstarted : ∀ p ∈ s.probes.rows, p.startedAt ≤ s.now) :
  ∀ p ∈ s'.probes.rows, p.startedAt ≤ s'.now
  := by
  intro p hp
  cases h with
  | tick ms => exact Nat.le_trans (hstarted p hp) (Nat.le_add_right _ _)
  | hits | joins | resumes => exact hstarted p hp
  | starts _ hprobes =>
      change p ∈ Table.rows _ at hp
      rw [Table.rows_of_create hprobes, List.mem_append, List.mem_singleton] at hp
      rcases hp with hp | rfl
      · exact hstarted p hp
      · exact Nat.le_refl _
  | @answers q _ hq | @fails q hq | @finishes q _ hq =>
      rcases Table.mem_rows_put_iff.mp hp with rfl | ⟨hp, -⟩
      · exact hstarted q (Table.mem_of_find hq)
      · exact hstarted p hp

/-- Every step keeps what holds of every state. -/
theorem Invariant.step (h : Invariant compute checkedAt ttl s)
    (hstep : Steps compute checkedAt ttl s s') :
  Invariant compute checkedAt ttl s'
  := by
  have hreports := hstep.reports_subset
  have hstay := hstep.probesStay
  have hserved {c : Call α} (hc : c ∈ s.calls.rows) :
      Served checkedAt ttl s' c ∧ c.calledAt ≤ s'.now := by
    obtain ⟨hserved, hnow⟩ := h.calls c hc
    exact ⟨hserved.mono hnow hstay, Nat.le_trans hnow hstay.now⟩
  have hanswers {c : Call α} (hc : c ∈ s.calls.rows) {a : α} (hphase : c.phase = .returned a) :
      Reported compute s' a :=
    (h.answers c hc a hphase).mono hreports
  refine ⟨hstep.flight h.flight, hstep.refreshing h.refreshing, hstep.started h.started, ?_, ?_, ?_, ?_⟩
  · cases hstep with
    | answers report =>
        intro a ha
        obtain rfl := Option.some.inj ha
        exact ⟨report, s.now, List.mem_append_right _ List.mem_cons_self, rfl⟩
    | _ => exact fun a ha => (h.cached a ha).mono hreports
  · intro p hp a hresult
    rcases hstep.results hp hresult with ⟨q, hq, hresult⟩ | hreported
    · exact (h.results q hq a hresult).mono hreports
    · exact hreported
  · intro c hc
    cases hstep with
    | tick | answers | fails | finishes => exact hserved hc
    | hits hcache hforce hfresh hcalls =>
        change c ∈ Table.rows _ at hc
        rw [Table.rows_of_create hcalls, List.mem_append, List.mem_singleton] at hc
        rcases hc with hc | rfl
        · exact hserved hc
        · exact ⟨.inl ⟨hforce, hfresh⟩, Nat.le_refl _⟩
    | joins hrefreshing hcalls =>
        change c ∈ Table.rows _ at hc
        rw [Table.rows_of_create hcalls, List.mem_append, List.mem_singleton] at hc
        rcases hc with hc | rfl
        · exact hserved hc
        · obtain ⟨p, hp, hunderWay⟩ := h.refreshing _ hrefreshing
          refine ⟨⟨p, hp, h.started p (Table.mem_of_find hp), fun result finishedAt hphase => ?_⟩,
            Nat.le_refl _⟩
          rw [hphase] at hunderWay
          cases hunderWay
    | starts _ hprobes hcalls =>
        change c ∈ Table.rows _ at hc
        rw [Table.rows_of_create hcalls, List.mem_append, List.mem_singleton] at hc
        rcases hc with hc | rfl
        · exact hserved hc
        · exact ⟨⟨_, (Table.find_create hprobes _).trans (if_pos rfl), Nat.le_refl _, nofun⟩,
            Nat.le_refl _⟩
    | @resumes c₀ p result finishedAt hc₀ hwaiting hp hphase =>
        rcases Table.mem_rows_put_iff.mp hc with rfl | ⟨hc, -⟩
        · obtain ⟨hserved₀, hnow⟩ := h.calls c₀ (Table.mem_of_find hc₀)
          refine ⟨?_, hnow⟩
          unfold Served at hserved₀
          rw [hwaiting] at hserved₀
          obtain ⟨p', hp', hstarted, hle⟩ := hserved₀
          obtain rfl := Option.some.inj (hp.symm.trans hp')
          cases result with
          | none => trivial
          | some a =>
              exact .inr ⟨p, Table.mem_of_find hp, finishedAt, hphase, hstarted, hle _ _ hphase⟩
        · exact hserved hc
  · intro c hc a hreturned
    cases hstep with
    | tick | answers | fails | finishes => exact hanswers hc hreturned
    | hits hcache hforce hfresh hcalls =>
        change c ∈ Table.rows _ at hc
        rw [Table.rows_of_create hcalls, List.mem_append, List.mem_singleton] at hc
        rcases hc with hc | rfl
        · exact hanswers hc hreturned
        · cases hreturned
          exact h.cached _ hcache
    | joins _ hcalls | starts _ _ hcalls =>
        change c ∈ Table.rows _ at hc
        rw [Table.rows_of_create hcalls, List.mem_append, List.mem_singleton] at hc
        rcases hc with hc | rfl
        · exact hanswers hc hreturned
        · cases hreturned
    | @resumes c₀ p result finishedAt hc₀ hwaiting hp hphase =>
        rcases Table.mem_rows_put_iff.mp hc with rfl | ⟨hc, -⟩
        · cases result with
          | none => cases hreturned
          | some a' =>
              cases hreturned
              exact h.results p (Table.mem_of_find hp) _ (by rw [hphase]; rfl)
        · exact hanswers hc hreturned

/-- What holds of every state holds at the end of every run. -/
theorem invariant_of_run {s₀ : State ρ α} {ts : List (Transition (State ρ α) (Label ρ))}
    (hrun : (system compute checkedAt ttl).Run s₀ ts s)
    (hinit : (system compute checkedAt ttl).init s₀) :
  Invariant compute checkedAt ttl s
  := by
  apply hrun.invariant
  · obtain ⟨hcache, hrefreshing, hprobes, hcalls, -⟩ := hinit
    refine ⟨?_, ?_, ?_, ?_, ?_, ?_, ?_⟩ <;> simp [hcache, hrefreshing, hprobes, hcalls]
  · exact fun t _ hstep h => h.step (steps_of_step hstep)

/-- One probe at most is under way. -/
theorem Invariant.eq_of_underWay (h : Invariant compute checkedAt ttl s) {p p' : Probe α}
    (hp : p ∈ s.probes.rows) (hp' : p' ∈ s.probes.rows) (hunderWay : p.phase.underWay = true)
    (hunderWay' : p'.phase.underWay = true) :
  p = p'
  := by
  have hid := (h.flight p hp hunderWay).symm.trans (h.flight p' hp' hunderWay')
  exact List.inj_on_of_nodup_map s.probes.nodup hp hp' (Option.some.inj hid)

/-- An answer was computed from a report, and is fresh or that of a probe that was under way when the
call was made. -/
theorem Invariant.answered (h : Invariant compute checkedAt ttl s) {c : Call α}
    (hc : c ∈ s.calls.rows) {a : α} (hphase : c.phase = .returned a) :
  Reported compute s a
    ∧ (c.force = false ∧ c.calledAt - checkedAt a < ttl ∨ UnderWayAt s c.calledAt a)
  := by
  obtain ⟨hserved, -⟩ := h.calls c hc
  unfold Served at hserved
  rw [hphase] at hserved
  exact ⟨h.answers c hc a hphase, hserved⟩

end

end SingleFlight
