import DocuAI.Ocr.Rows

/-!
# Attempts are bounded

A claim counts an attempt before anybody looks at the limit, so that `attemptCount` may pass
`maxAttempts`.  The number of times `run` is entered may not: every claim has an attempt of its own,
and `process` enters `run` only when the row it reads again after its claim, which others may have
changed in between, has not passed the limit (`Process.Knows`).
-/

namespace DocuAI

namespace OcrWorker

variable {config : OcrConfig} {unicode : Unicode}

/-! ### Rows only gain attempts -/

/-- The row is still there, with the same limit and no fewer attempts. -/
def RowGrows (row row' : Option OcrJob) : Prop :=
  ∀ job ∈ row, ∃ job' ∈ row', job'.maxAttempts = job.maxAttempts
    ∧ job.attemptCount ≤ job'.attemptCount

/-- A step keeps the limit of a job, and does not lower the count of its attempts. -/
theorem rowGrows_of_step {s s' : State} {a : Label} (h : step config unicode s a = some s')
    (jobId : ℕ) :
  RowGrows (s.db.ocrJobs.find jobId) (s'.db.ocrJobs.find jobId)
  := by
  intro job hjob
  refine ⟨_, find_of_step h hjob, ?_⟩
  unfold Label.applied
  split
  · split
    · unfold Update.apply
      split
      · rw [Write.attemptCount_data]
        exact ⟨Write.maxAttempts_data _, Nat.le_add_right _ _⟩
      · exact ⟨rfl, Nat.le_refl _⟩
    · exact ⟨rfl, Nat.le_refl _⟩
  · exact ⟨rfl, Nat.le_refl _⟩

/-! ### What a process knows of the attempts -/

/-- Before `process` has decided whether it may go on to `run`. -/
def Phase.undecided : Phase → Bool
  | .delivered | .found _ | .claimed _ => true
  | _ => false

/-- Past the decision and the creation of the work directory. -/
def Phase.plain : Phase → Bool
  | .delivered | .found _ | .claimed _ | .exhausted | .starting _ => false
  | _ => true

/-- What a process knows of the row of its job.  The timer tells the processes that were allowed to
enter `run` from the others. -/
structure Process.Knows (q : Process) (row : Option OcrJob) : Prop where
  attempt_le : q.attempt ≤ row.elim 0 OcrJob.attemptCount
  claimed : ∀ job, q.phase = .claimed job → 1 ≤ q.attempt
  exhausted : q.phase = .exhausted → ∃ job ∈ row, job.maxAttempts ≤ job.attemptCount
  starting : ∀ job, q.phase = .starting job → q.timer = true
  timer : q.timer = true → q.phase.undecided = false
    ∧ ∃ job ∈ row, 1 ≤ q.attempt ∧ q.attempt ≤ job.maxAttempts

theorem Process.Knows.mono {q : Process} {row row' : Option OcrJob} (h : q.Knows row)
    (hgrows : RowGrows row row') :
  q.Knows row'
  := by
  constructor
  · cases hrow : row with
    | none =>
        have hzero := h.attempt_le
        rw [hrow] at hzero
        apply Nat.le_trans hzero (Nat.zero_le _)
    | some job =>
        obtain ⟨job', hjob', -, hle⟩ := hgrows job hrow
        have hcount := h.attempt_le
        rw [hrow] at hcount
        rw [Option.mem_def.mp hjob']
        apply Nat.le_trans hcount hle
  · apply h.claimed
  · intro hphase
    obtain ⟨job, hjob, hle⟩ := h.exhausted hphase
    obtain ⟨job', hjob', hmax, hcount⟩ := hgrows job hjob
    exact ⟨job', hjob', by omega⟩
  · apply h.starting
  · intro htimer
    obtain ⟨hphase, job, hjob, hpos, hle⟩ := h.timer htimer
    obtain ⟨job', hjob', hmax, -⟩ := hgrows job hjob
    exact ⟨hphase, job', hjob', hpos, by omega⟩

/-- A process that is past the decision, or goes on where it was, knows what it knew. -/
theorem Process.Knows.goes {q : Process} {row : Option OcrJob} (h : q.Knows row) {p : Progress}
    (hphase : p.phase.plain = true ∨ p.phase = q.phase) (htimer : p.timer = q.timer)
    (hattempt : p.attempt = q.attempt) :
  Process.Knows { q with toProgress := p } row
  := by
  obtain ⟨phase, timer, attempt, lastBeat⟩ := p
  simp only at hphase htimer hattempt
  subst htimer hattempt
  rcases hphase with hplain | rfl
  · constructor
    · apply h.attempt_le
    · rintro job rfl
      cases hplain
    · rintro rfl
      cases hplain
    · rintro job rfl
      cases hplain
    · intro htimer
      refine ⟨?_, (h.timer htimer).2⟩
      simp only
      cases phase <;> first | rfl | cases hplain
  · exact ⟨h.attempt_le, h.claimed, h.exhausted, h.starting, h.timer⟩

/-- `run` starts past the decision. -/
theorem plain_load {db : Database} {job : OcrJob} :
  (Process.load config db job).plain = true
  := by
  apply Process.load_cases (motive := fun phase => phase.plain = true)
  · rfl
  · rfl
  · exact fun _ => rfl

/-- A claim that succeeds has the attempt it counts. -/
theorem knows_claim {db : Database} {now : ℕ} {q : Process} {job : OcrJob} {readAt : ℕ}
    (h : q.Knows (db.ocrJobs.find q.jobId)) (hphase : q.phase = .found job)
    (hreply : ((Write.claim q.jobId readAt).perform config.staleJobMs now db).2 = true)
    {row : Option OcrJob}
    (hrow : row = ((Write.claim q.jobId readAt).perform config.staleJobMs now db).1.ocrJobs.find
      q.jobId) :
  Process.Knows
    { q with
      toProgress :=
        { phase := .claimed job
          timer := q.timer
          attempt := (OcrJobService.findById db q.jobId).elim 0 (·.attemptCount + 1)
          lastBeat := now } } row
  := by
  obtain ⟨old, hold, -, hafter⟩ := Write.find_of_reply hreply
  have hnew := hrow.trans hafter
  have hattempt : (OcrJobService.findById db q.jobId).elim 0 (·.attemptCount + 1)
      = old.attemptCount + 1 := by
    rw [OcrJobService.findById, show db.ocrJobs.find q.jobId = some old from hold]
    rfl
  have htimer : q.timer = false := by
    by_contra hne
    have hundecided := (h.timer (Bool.not_eq_false _ ▸ hne)).1
    rw [hphase] at hundecided
    cases hundecided
  constructor
  · rw [hnew, hattempt]
    exact Nat.le_refl _
  · intro _ _
    simp only [hattempt]
    apply Nat.succ_pos
  · rintro ⟨⟩
  · rintro _ ⟨⟩
  · intro hne
    rw [htimer] at hne
    cases hne

/-- A process knows of its job what it has to, whatever step it takes. -/
theorem Process.Knows.act {s : State} {q : Process} {a : Action} {e : Effect}
    (h : q.Knows (s.db.ocrJobs.find q.jobId)) (hact : q.act config unicode s.db s.now a = some e)
    {row : Option OcrJob} (hrow : row = (s.apply config q e).db.ocrJobs.find q.jobId)
    (hgrows : RowGrows (s.db.ocrJobs.find q.jobId) row) :
  Process.Knows { q with toProgress := e.next (e.reply config s) } row
  := by
  have hknows := h.mono hgrows
  have hmoves := Process.moves_of_act hact
  clear hact
  cases hmoves with
  | finds hphase hjob hactive =>
      have htimer : q.timer = false := by
        by_contra hne
        have hundecided := (h.timer (Bool.not_eq_false _ ▸ hne)).1
        rw [hphase] at hundecided
        cases hundecided
      constructor
      · apply hknows.attempt_le
      · rintro _ ⟨⟩
      · rintro ⟨⟩
      · rintro _ ⟨⟩
      · intro hne
        have hne : q.timer = true := hne
        rw [htimer] at hne
        cases hne
  | @claims job readAt hphase hread =>
      by_cases hreply : ((Write.claim q.jobId readAt).perform config.staleJobMs s.now s.db).2 = true
      · simp only [Effect.reply, hreply, if_true]
        apply knows_claim h hphase hreply hrow
      · simp only [Effect.reply, hreply, Bool.false_eq_true, if_false]
        exact hknows.goes (.inl rfl) rfl rfl
  | @exhausts job hphase hcount =>
      have hpos := h.claimed job hphase
      have hle := h.attempt_le
      cases hfind : s.db.ocrJobs.find q.jobId with
      | none =>
          rw [hfind] at hle
          exact absurd (Nat.le_trans hpos hle) (by decide)
      | some row =>
          obtain ⟨row', hrow', hmax, hgrown⟩ := hgrows row hfind
          simp only [OcrJobService.findById, hfind, Option.getD_some] at hcount
          constructor
          · apply hknows.attempt_le
          · rintro _ ⟨⟩
          · intro _
            exact ⟨row', hrow', by omega⟩
          · rintro _ ⟨⟩
          · intro htimer
            exact ⟨rfl, (hknows.timer htimer).2⟩
  | @starts job hphase hcount =>
      have hpos := h.claimed job hphase
      have hle := h.attempt_le
      cases hfind : s.db.ocrJobs.find q.jobId with
      | none =>
          rw [hfind] at hle
          exact absurd (Nat.le_trans hpos hle) (by decide)
      | some row =>
          obtain ⟨row', hrow', hmax, -⟩ := hgrows row hfind
          simp only [OcrJobService.findById, hfind, Option.getD_some] at hcount
          rw [hfind] at hle
          simp only [Option.elim_some] at hle
          constructor
          · apply hknows.attempt_le
          · rintro _ ⟨⟩
          · rintro ⟨⟩
          · intro _ _
            rfl
          · intro _
            refine ⟨rfl, row', hrow', hpos, ?_⟩
            simp only [Process.goTo]
            omega
  | loads hphase => exact hknows.goes (.inl plain_load) rfl rfl
  | beats htimer => exact hknows.goes (.inr rfl) rfl rfl
  | _ => exact hknows.goes (.inl rfl) rfl rfl

/-! ### The attempts of the processes -/

/-- Every process knows its attempt, and no two of them have the same attempt of a job. -/
structure AttemptsInvariant (s : State) : Prop where
  knows : ∀ q ∈ s.processes.rows, q.Knows (s.db.ocrJobs.find q.jobId)
  distinct : ∀ p ∈ s.processes.rows, ∀ q ∈ s.processes.rows, p.jobId = q.jobId →
    p.attempt = q.attempt → p.attempt ≠ 0 → p = q

/-- A step of a process gives it a new attempt only when its claim succeeds. -/
theorem attempt_of_act {s : State} {q : Process} {a : Action} {e : Effect}
    (hact : q.act config unicode s.db s.now a = some e) :
  (e.next (e.reply config s)).attempt = q.attempt
  ∨ ∃ job, s.db.ocrJobs.find q.jobId = some job
    ∧ (e.next (e.reply config s)).attempt = job.attemptCount + 1
  := by
  have hmoves := Process.moves_of_act hact
  clear hact
  cases hmoves with
  | @claims job readAt hphase hread =>
      by_cases hreply : ((Write.claim q.jobId readAt).perform config.staleJobMs s.now s.db).2 = true
      · obtain ⟨old, hold, -⟩ := Write.find_of_reply hreply
        have hold : s.db.ocrJobs.find q.jobId = some old := hold
        right
        use old, hold
        simp [Effect.reply, hreply, OcrJobService.findById, hold]
      · left
        simp only [Effect.reply, hreply, Bool.false_eq_true, if_false]
        rfl
  | _ => exact .inl rfl

theorem AttemptsInvariant.step {s s' : State} {a : Label} (h : AttemptsInvariant s)
    (hstep : step config unicode s a = some s') :
  AttemptsInvariant s'
  := by
  have hgrows := rowGrows_of_step hstep
  rcases processes_of_step hstep with hsame | ⟨p, hcreate, hphase, htimer, hattempt, -⟩
    | ⟨q, hq, action, e, rfl, hact, rfl⟩
  · constructor
    · intro q hq
      rw [hsame] at hq
      apply (h.knows q hq).mono (hgrows q.jobId)
    · rw [hsame]
      apply h.distinct
  · have hmem : ∀ r ∈ s'.processes.rows, r ∈ s.processes.rows ∨ r = p := by
      intro r hr
      rw [Table.rows_of_create hcreate, List.mem_append, List.mem_singleton] at hr
      apply hr
    constructor
    · intro r hr
      rcases hmem r hr with hr | rfl
      · apply (h.knows r hr).mono (hgrows r.jobId)
      · constructor
        · rw [hattempt]
          apply Nat.zero_le
        · rw [hphase]
          rintro _ ⟨⟩
        · rw [hphase]
          rintro ⟨⟩
        · rw [hphase]
          rintro _ ⟨⟩
        · rw [htimer]
          rintro ⟨⟩
    · intro r hr r' hr' hjob hsame hne
      rcases hmem r hr with hr | rfl
      · rcases hmem r' hr' with hr' | rfl
        · apply h.distinct r hr r' hr' hjob hsame hne
        · rw [hattempt] at hsame
          exact absurd hsame hne
      · exact absurd hattempt hne
  · have hnew : Process.Knows { q with toProgress := e.next (e.reply config s) }
        ((s.apply config q e).db.ocrJobs.find q.jobId) :=
      (h.knows q hq).act hact rfl (hgrows q.jobId)
    have hother : ∀ r ∈ s.processes.rows, r.id ≠ q.id → r.jobId = q.jobId → r.attempt ≠ 0 →
        r.attempt ≠ (e.next (e.reply config s)).attempt := by
      rintro r hr hid hjob hne heq
      rcases attempt_of_act hact with hsame | ⟨job, hfind, hattempt⟩
      · apply hid
        rw [h.distinct r hr q hq hjob (heq.trans hsame) hne]
      · have hle := (h.knows r hr).attempt_le
        rw [hjob, hfind] at hle
        simp only [Option.elim_some] at hle
        omega
    constructor
    · intro r hr
      rw [processes_apply] at hr
      rcases Table.mem_rows_put_iff.mp hr with rfl | ⟨hr, -⟩
      · apply hnew
      · apply (h.knows r hr).mono (hgrows r.jobId)
    · intro r hr r' hr' hjob hsame hne
      rw [processes_apply] at hr hr'
      rcases Table.mem_rows_put_iff.mp hr with rfl | ⟨hr, hid⟩
      · rcases Table.mem_rows_put_iff.mp hr' with rfl | ⟨hr', hid'⟩
        · rfl
        · exact absurd hsame.symm (hother r' hr' hid' hjob.symm (hsame ▸ hne))
      · rcases Table.mem_rows_put_iff.mp hr' with rfl | ⟨hr', -⟩
        · exact absurd hsame (hother r hr hid hjob hne)
        · apply h.distinct r hr r' hr' hjob hsame hne

/-! ### Entering `run` -/

/-- A worker of the job is inside `run` after the transition that was not before it. -/
def entersRun (jobId : ℕ) (t : Transition State Label) : Bool :=
  t.target.processes.rows.any fun q => q.jobId = jobId && q.phase.inRun
    && !(t.source.processes.find q.id).any (·.phase.inRun)

/-- The process was allowed to enter `run`, and has gone on from there. -/
def Process.entered (q : Process) : Bool :=
  q.timer && match q.phase with
    | .starting _ => false
    | _ => true

/-- How many processes of a job were allowed to enter `run` and have gone on from there. -/
def entered (jobId : ℕ) (s : State) : ℕ :=
  s.processes.rows.countP fun q => decide (q.jobId = jobId) && q.entered

/-- A process that enters `run` was at the start of it, with its timer running. -/
theorem starting_of_inRun {s : State} {q : Process} {a : Action} {e : Effect}
    (hact : q.act config unicode s.db s.now a = some e) {row : Option OcrJob} (hknows : q.Knows row)
    (hbefore : q.phase.inRun = false) (hafter : (e.next (e.reply config s)).phase.inRun = true) :
  q.entered = false ∧ Process.entered { q with toProgress := e.next (e.reply config s) } = true
  := by
  have hmoves := Process.moves_of_act hact
  clear hact
  cases hmoves with
  | @enters job hphase =>
      have htimer := hknows.starting job hphase
      constructor
      · simp [Process.entered, hphase]
      · simp [Process.entered, Process.goTo, htimer]
  | claims hphase hread =>
      simp only at hafter
      split at hafter
      · cases hafter
      · cases hafter
  | loads hphase | downloads hphase hdownload | inspects hphase hinspect | measures hphase
  | resumes hphase | yields hphase hnext | ends hphase hnext | persists hphase | finalizes hphase
  | cancels hphase =>
      rw [hphase] at hbefore
      cases hbefore
  | beats htimer =>
      rw [show (q.renewTo s.now q.phase _).phase = q.phase from rfl, hbefore] at hafter
      cases hafter
  | _ => cases hafter

/-- A process that has entered `run` never starts again. -/
theorem entered_of_act {s : State} {q : Process} {a : Action} {e : Effect}
    (hact : q.act config unicode s.db s.now a = some e) {row : Option OcrJob} (hknows : q.Knows row)
    (hentered : q.entered = true) :
  Process.entered { q with toProgress := e.next (e.reply config s) } = true
  := by
  simp only [Process.entered, Bool.and_eq_true] at hentered
  obtain ⟨htimer, hphase⟩ := hentered
  have hdecided := (hknows.timer htimer).1
  have hgo : ∀ {p : Progress}, p.timer = q.timer → p.phase.plain = true →
      Process.entered { q with toProgress := p } = true := by
    rintro p hp hplain
    simp only [Process.entered, hp, htimer, Bool.true_and]
    cases hnext : p.phase <;> first | rfl | (rw [hnext] at hplain; cases hplain)
  have hmoves := Process.moves_of_act hact
  clear hact
  cases hmoves with
  | finds hphase' _ _ | claims hphase' _ | exhausts hphase' _ | starts hphase' _ =>
      rw [hphase'] at hdecided
      cases hdecided
  | beats _ =>
      simp only [Process.entered, Process.renewTo, htimer, Bool.true_and]
      apply hphase
  | loads hphase' => exact hgo rfl plain_load
  | _ => exact hgo rfl rfl

/-- Every transition into `run` adds a process to those that have entered it. -/
theorem entered_step {t : Transition State Label} (h : AttemptsInvariant t.source)
    (hstep : step config unicode t.source t.label = some t.target) (jobId : ℕ) :
  (if entersRun jobId t = true then 1 else 0) + entered jobId t.source ≤ entered jobId t.target
  := by
  have hquiet : (∀ r ∈ t.target.processes.rows, r.jobId = jobId → r.phase.inRun = true →
      (t.source.processes.find r.id).any (·.phase.inRun) = true) → entersRun jobId t = false := by
    intro hall
    rw [entersRun, List.any_eq_false]
    intro r hr
    by_cases hjob : r.jobId = jobId
    · by_cases hrun : r.phase.inRun = true
      · simp [hall r hr hjob hrun]
      · simp [hrun]
    · simp [hjob]
  rcases processes_of_step hstep with hsame | ⟨p, hcreate, hphase, htimer, -⟩
    | ⟨q, hq, action, e, -, hact, htarget⟩
  · rw [hquiet, entered, entered, hsame]
    · simp
    · intro r hr _ hrun
      rw [hsame] at hr
      simp [Table.mem_rows_iff.mp hr, hrun]
  · rw [hquiet]
    · rw [entered, entered, Table.rows_of_create hcreate, List.countP_append]
      simp
    · intro r hr _ hrun
      rw [Table.rows_of_create hcreate, List.mem_append, List.mem_singleton] at hr
      rcases hr with hr | rfl
      · simp [Table.mem_rows_iff.mp hr, hrun]
      · rw [hphase] at hrun
        cases hrun
  · have hknows := h.knows q hq
    have hfind := Table.mem_rows_iff.mp hq
    have hevent : entersRun jobId t = true → q.jobId = jobId ∧ q.phase.inRun = false
        ∧ (e.next (e.reply config t.source)).phase.inRun = true := by
      intro henters
      obtain ⟨r, hr, hcond⟩ := List.any_eq_true.mp henters
      simp only [Bool.and_eq_true, decide_eq_true_eq, Bool.not_eq_true'] at hcond
      obtain ⟨⟨hjob, hrun⟩, hbefore⟩ := hcond
      rw [htarget, processes_apply] at hr
      rcases Table.mem_rows_put_iff.mp hr with rfl | ⟨hr, -⟩
      · simp only [hfind, Option.any_some] at hbefore
        exact ⟨hjob, hbefore, hrun⟩
      · rw [Table.mem_rows_iff.mp hr, Option.any_some, hrun] at hbefore
        cases hbefore
    have hstarts := starting_of_inRun (e := e) hact hknows
    have hstays := entered_of_act hact hknows
    rw [entered, entered, htarget, processes_apply]
    obtain ⟨q', hq'⟩ : ∃ q' : Process, q' = { q with toProgress := e.next (e.reply config t.source) } :=
      ⟨_, rfl⟩
    have hid : q'.id = q.id := by rw [hq']
    have hjob' : q'.jobId = q.jobId := by rw [hq']
    rw [← hq'] at hstarts hstays ⊢
    have hput := Table.countP_put q' (hid ▸ hfind) fun q => decide (q.jobId = jobId) && q.entered
    rw [hjob'] at hput
    by_cases henters : entersRun jobId t = true
    · obtain ⟨hjob, hbefore, hafter⟩ := hevent henters
      obtain ⟨hnot, hentered⟩ := hstarts hbefore hafter
      simp only [hjob, hnot, hentered, decide_true, Bool.and_false, Bool.and_true, Bool.false_eq_true,
        if_false, if_true] at hput
      rw [if_pos henters]
      omega
    · rw [if_neg henters]
      by_cases hjob : q.jobId = jobId
      · by_cases hentered : q.entered = true
        · simp only [hjob, hentered, hstays hentered, decide_true, Bool.and_true, if_true] at hput
          omega
        · simp only [hentered, Bool.and_false, Bool.false_eq_true, if_false] at hput
          omega
      · simp only [hjob, decide_false, Bool.false_and, Bool.false_eq_true, if_false] at hput
        omega

/-- A job has no more processes that have entered `run` than attempts are allowed. -/
theorem entered_le {s : State} (h : AttemptsInvariant s) {jobId : ℕ} {job : OcrJob}
    (hjob : s.db.ocrJobs.find jobId = some job) :
  entered jobId s ≤ job.maxAttempts
  := by
  have hentered : ∀ q ∈ s.processes.rows.filter (fun q => decide (q.jobId = jobId) && q.entered),
      q ∈ s.processes.rows ∧ q.jobId = jobId ∧ 1 ≤ q.attempt ∧ q.attempt ≤ job.maxAttempts := by
    intro q hq
    simp only [List.mem_filter, Bool.and_eq_true, decide_eq_true_eq, Process.entered] at hq
    obtain ⟨hq, rfl, htimer, -⟩ := hq
    obtain ⟨-, row, hrow, hpos, hle⟩ := (h.knows q hq).timer htimer
    rw [hjob, Option.mem_def] at hrow
    obtain rfl := Option.some.inj hrow
    exact ⟨hq, rfl, hpos, hle⟩
  have hnodup : ((s.processes.rows.filter fun q => decide (q.jobId = jobId) && q.entered).map
      (·.attempt)).Nodup := by
    apply List.Nodup.map_on
    · intro p hp q hq hsame
      obtain ⟨hp, hpjob, hpos, -⟩ := hentered p hp
      obtain ⟨hq, hqjob, -, -⟩ := hentered q hq
      apply h.distinct p hp q hq (hpjob.trans hqjob.symm) hsame (Nat.ne_of_gt hpos)
    · apply List.Nodup.filter
      apply List.Nodup.of_map
      apply s.processes.nodup
  have hsubset : ((s.processes.rows.filter fun q => decide (q.jobId = jobId) && q.entered).map
      (·.attempt)) ⊆ List.range' 1 job.maxAttempts := by
    intro n hn
    obtain ⟨q, hq, rfl⟩ := List.mem_map.mp hn
    obtain ⟨-, -, hpos, hle⟩ := hentered q hq
    rw [List.mem_range'_1]
    omega
  rw [entered, List.countP_eq_length_filter, ← List.length_map (·.attempt)]
  apply Nat.le_trans (List.subperm_of_subset hnodup hsubset).length_le
  rw [List.length_range']

/-! ### What the tools throw -/

/-- The codes of the processing errors that the tools throw. -/
def TOOL_ERROR_CODES : List OcrErrorCode :=
  [.OCR_INVALID_FILE, .OCR_PROCESSING_FAILED, .OCR_PROCESSING_TIMEOUT]

/-- An error that is thrown outside of the worker: a processing error is one of the tools. -/
def Expected : Thrown → Prop
  | .processing error => error.code ∈ TOOL_ERROR_CODES
  | _ => True

/-- The calls of a step throw what they throw in the program.  What the modelled tools throw is as
expected (`Action.Faithful.expected`). -/
def Action.Expected : Action → Prop
  | .download (.thrown error) | .throw error => OcrWorker.Expected error
  | .inspect probe => ∀ error, probe.info = .error error → OcrWorker.Expected error
  | .extract tools =>
      (∀ pageCount timeoutMs maxBytes error,
        tools.extractText pageCount timeoutMs maxBytes = .error error → OcrWorker.Expected error)
      ∧ (∀ pageNumber dpi timeoutMs error,
        tools.renderPage pageNumber dpi timeoutMs = .error error → OcrWorker.Expected error)
      ∧ ∀ language timeoutMs error,
        tools.recognize language timeoutMs = .error error → OcrWorker.Expected error
  | _ => True

def Label.Expected : Label → Prop
  | .process _ action => action.Expected
  | _ => True

/-- The error counts as an interruption of the worker. -/
def Interrupted (error : Thrown) : Prop :=
  (toProcessingError error).code = .OCR_WORKER_INTERRUPTED

theorem Expected.not_interrupted {error : Thrown} (h : Expected error) :
  ¬Interrupted error
  := by
  intro hinterrupted
  cases error with
  | processing error =>
      have hcode : error.code = .OCR_WORKER_INTERRUPTED := hinterrupted
      have hmem : error.code ∈ TOOL_ERROR_CODES := h
      rw [hcode] at hmem
      exact absurd hmem (by decide)
  | storage message => cases hinterrupted
  | other description => cases hinterrupted

theorem download_not_interrupted {maxBytes : ℕ} {stream : ObjectStream} {error : Thrown}
    (hexpected : (Action.download stream).Expected) (h : download maxBytes stream = .error error) :
  ¬Interrupted error
  := by
  rcases error_of_download h with (rfl | ⟨message, detail, rfl⟩) | rfl | ⟨-, message, rfl⟩
  · rintro ⟨⟩
  · rintro ⟨⟩
  · exact Expected.not_interrupted hexpected
  · rintro ⟨⟩

theorem inspect_not_interrupted {expectedMimeType : Option JsString} {probe : FileProbe}
    {error : Thrown} (hexpected : (Action.inspect probe).Expected)
    (h : inspect config expectedMimeType probe = .error error) :
  ¬Interrupted error
  := by
  rcases error_of_inspect h with hinfo | ⟨code, hcode, message, detail, rfl⟩
  · exact (hexpected error hinfo).not_interrupted
  · rintro rfl
    exact absurd hcode (by decide)

/-- A page was extracted, or an error thrown, that does not speak of an interrupted worker. -/
def Uninterrupted : Except Thrown ExtractedPage → Prop
  | .ok page => page.errorCode ≠ some .OCR_WORKER_INTERRUPTED
  | .error error => ¬Interrupted error

theorem uninterrupted_storeText {n : ℕ} {method : PageMethod} {text : JsString}
    {confidence : Option Double} {budget : ℤ} {maxPerPage : ℕ} :
  Uninterrupted (.ok (storeText n method text confidence budget maxPerPage))
  := by
  unfold storeText
  split
  · rintro ⟨⟩
  · split
    · rintro ⟨⟩
    · rintro ⟨⟩

/-- A failed page has the code of its error. -/
theorem uninterrupted_pageFailure {error : Thrown} (h : ¬Interrupted error) {n : ℕ}
    {page : ExtractedPage} (hpage : pageFailure error n = some page) :
  Uninterrupted (.ok page)
  := by
  unfold pageFailure at hpage
  split at hpage
  · split at hpage
    · cases hpage
    · obtain rfl := Option.some.inj hpage
      intro hcode
      apply h (Option.some.inj hcode)
  · cases hpage

theorem uninterrupted_ocrPage {tools : Tools} (h : (Action.extract tools).Expected) {now n : ℕ}
    {input : ExtractionInput} {budget : ℤ} :
  Uninterrupted (ocrPage config unicode tools now n input budget)
  := by
  unfold ocrPage
  split
  · apply uninterrupted_storeText
  · rename_i herror
    have hnot := (h.2.2 _ _ _ herror).not_interrupted
    split
    · rename_i hfailure
      apply uninterrupted_pageFailure hnot hfailure
    · apply hnot

theorem uninterrupted_pdfPage {tools : Tools} (h : (Action.extract tools).Expected) {now n : ℕ}
    {input : ExtractionInput} {pdf : PdfInfo} {nativePages : List JsString} {budget : ℤ} :
  Uninterrupted (pdfPage config unicode tools now input pdf nativePages n budget)
  := by
  unfold pdfPage
  split
  · rintro ⟨⟩
  simp only
  split
  · apply uninterrupted_storeText
  have hattempt : Uninterrupted (do
      let dpi ← renderDpiFor config pdf n
      tools.renderPage n dpi (pageBudget config now input.deadline)
      ocrPage config unicode tools now n input budget) := by
    simp only [bind, Except.bind]
    split
    · rename_i herror
      obtain ⟨message, detail, rfl⟩ := error_of_renderDpiFor herror
      rintro ⟨⟩
    · split
      · rename_i herror
        apply (h.2.1 _ _ _ _ herror).not_interrupted
      · apply uninterrupted_ocrPage h
  split
  · rename_i hpage
    rw [hpage] at hattempt
    apply hattempt
  · rename_i error herror
    rw [herror] at hattempt
    split
    · rename_i hfailure
      apply uninterrupted_pageFailure hattempt hfailure
    · apply hattempt

/-- Neither a page nor an error that a generator yields speaks of an interrupted worker. -/
def UninterruptedYield : Yield → Prop
  | .page page _ => page.errorCode ≠ some .OCR_WORKER_INTERRUPTED
  | .done => True
  | .thrown error => ¬Interrupted error

theorem uninterrupted_pdfNext {tools : Tools} (h : (Action.extract tools).Expected) {now n : ℕ}
    {input : ExtractionInput} {pdf : PdfInfo} {nativePages : List JsString} {budget : ℤ} :
  UninterruptedYield (pdfNext config unicode tools now input pdf nativePages n budget)
  := by
  have hpage : Uninterrupted (pdfPage config unicode tools now input pdf nativePages n budget) :=
    uninterrupted_pdfPage h
  unfold pdfNext
  split
  · split
    · rename_i heq
      rw [heq] at hpage
      apply hpage
    · rename_i heq
      rw [heq] at hpage
      apply hpage
  · trivial

theorem uninterrupted_next {tools : Tools} (h : (Action.extract tools).Expected) {now : ℕ}
    (extraction : Extraction) :
  UninterruptedYield (extraction.next config unicode tools now)
  := by
  cases extraction with
  | started input =>
      simp only [Extraction.next]
      split
      · split
        · apply uninterrupted_pdfNext h
        · rename_i herror
          unfold nativePagesOf at herror
          split at herror
          · cases herror
          · cases herror
          · rename_i hthrown
            obtain rfl := Except.error.inj herror
            apply (h.1 _ _ _ _ hthrown).not_interrupted
      · split
        · trivial
        · have hpage : Uninterrupted
              (ocrPage config unicode tools now 1 input input.charBudget) := uninterrupted_ocrPage h
          split
          · rename_i heq
            rw [heq] at hpage
            apply hpage
          · rename_i heq
            rw [heq] at hpage
            apply hpage
  | inPdf input pdf nativePages n budget => apply uninterrupted_pdfNext h
  | afterImage input => trivial

/-! ### Failing with `OCR_WORKER_INTERRUPTED` -/

/-- Neither the page nor the error a process is at speaks of an interrupted worker. -/
def Phase.Uninterrupted : Phase → Prop
  | .yielded _ page _ => page.errorCode ≠ some .OCR_WORKER_INTERRUPTED
  | .failing _ error => ¬Interrupted error
  | _ => True

/-- A job that FAILED with `OCR_WORKER_INTERRUPTED` had no attempt left.  The snapshots of the
reconcilers may be old: the rows have only gained attempts since. -/
structure InterruptedInvariant (s : State) : Prop where
  rows : ∀ job ∈ s.db.ocrJobs.rows, job.status = .FAILED →
    job.errorCode = some .OCR_WORKER_INTERRUPTED → job.maxAttempts ≤ job.attemptCount
  pages : ∀ page ∈ s.db.ocrPages.rows, page.errorCode ≠ some .OCR_WORKER_INTERRUPTED
  phases : ∀ q ∈ s.processes.rows, q.phase.Uninterrupted
  snapshots : ∀ r ∈ s.reconcilers.rows, ∀ job ∈ r.remaining,
    RowGrows (some job) (s.db.ocrJobs.find job.id)

/-- A write that makes a job FAILED with `OCR_WORKER_INTERRUPTED` says so itself, unless a page
does. -/
theorem interrupted_data (w : Write) {staleMs now : ℕ} {db : Database} {job : OcrJob}
    (hstatus : ((w.update staleMs now db).data job).status = .FAILED)
    (hcode : ((w.update staleMs now db).data job).errorCode = some .OCR_WORKER_INTERRUPTED) :
  job.status = .FAILED ∧ job.errorCode = some .OCR_WORKER_INTERRUPTED
  ∨ (∃ message, w = .fail w.jobId .OCR_WORKER_INTERRUPTED message)
  ∨ ∃ page ∈ db.pagesOf w.jobId, page.errorCode = some .OCR_WORKER_INTERRUPTED
  := by
  cases w with
  | claim jobId readAt | requeue jobId errorCode errorMessage | recover jobId readAt
  | cancel jobId errorCode errorMessage => cases hstatus
  | heartbeat jobId | setTotalPages jobId documentId totalPages | persistPage jobId page =>
      exact .inl ⟨hstatus, hcode⟩
  | fail jobId errorCode errorMessage =>
      obtain rfl := Option.some.inj hcode
      exact .inr (.inl ⟨errorMessage, rfl⟩)
  | finalize jobId =>
      right
      right
      have hstatus : finalStatus (db.pagesOf jobId) = .FAILED := hstatus
      have hcode : (if finalStatus (db.pagesOf jobId) = .COMPLETED then none
        else dominantError (db.pagesOf jobId)) = some .OCR_WORKER_INTERRUPTED := hcode
      rw [hstatus, if_neg (by decide)] at hcode
      unfold dominantError at hcode
      split at hcode
      · obtain ⟨page, hpage, heq⟩ := List.mem_map.mp (mem_of_mostCommon hcode)
        refine ⟨page, (mem_failedPages_iff.mp hpage).1, ?_⟩
        cases hpageCode : page.errorCode with
        | none =>
            rw [hpageCode] at heq
            cases heq
        | some code =>
            rw [hpageCode] at heq
            rw [← heq]
            rfl
      · cases hcode

/-- Whoever fails a job with `OCR_WORKER_INTERRUPTED` has seen it without an attempt left. -/
theorem exhausted_of_fail {s : State} {a : Label} (h : InterruptedInvariant s)
    (hattempts : AttemptsInvariant s) {job : OcrJob} (hjob : job ∈ s.db.ocrJobs.rows)
    {message : JsString}
    (hw : a.write config unicode s = some (.fail job.id .OCR_WORKER_INTERRUPTED message)) :
  job.maxAttempts ≤ job.attemptCount
  := by
  have hfind := Table.mem_rows_iff.mp hjob
  rcases origin_of_write hw with ⟨q, hq, action, next, -, hact⟩ | ⟨r, hr, seen, hseen, _, -, hwrite⟩
  · have hmoves := Process.moves_of_act hact
    clear hact hw
    generalize hid : job.id = jobId at hmoves
    cases hmoves with
    | givesUp hphase =>
        obtain ⟨row, hrow, hle⟩ := (hattempts.knows q hq).exhausted hphase
        rw [← hid, hfind, Option.mem_def] at hrow
        obtain rfl := Option.some.inj hrow
        apply hle
    | @handles job' error _ hphase hwrite =>
        have hclean := h.phases q hq
        rw [hphase] at hclean
        unfold Process.handleFailure at hwrite
        simp only at hwrite
        split at hwrite
        · obtain ⟨-, hcode, -⟩ := Write.fail.inj hwrite
          exact absurd hcode.symm hclean
        · cases hwrite
  · unfold Reconciler.write at hwrite
    split at hwrite
    · rename_i hle
      obtain ⟨hid, -, -⟩ := Write.fail.inj hwrite
      obtain ⟨row, hrow, hmax, hcount⟩ := h.snapshots r hr seen hseen seen rfl
      rw [← hid, hfind, Option.mem_def] at hrow
      obtain rfl := Option.some.inj hrow
      omega
    · cases hwrite

theorem uninterrupted_load {db : Database} {job : OcrJob} :
  (Process.load config db job).Uninterrupted
  := by
  apply Process.load_cases (motive := Phase.Uninterrupted)
  · trivial
  · rintro ⟨⟩
  · exact fun _ => trivial

/-- The step of a process takes it to a page or an error that does not speak of an interrupted
worker. -/
theorem uninterrupted_act {s : State} {q : Process} {a : Action} {e : Effect}
    (h : q.phase.Uninterrupted) (hact : q.act config unicode s.db s.now a = some e)
    (hexpected : a.Expected) :
  (e.next (e.reply config s)).phase.Uninterrupted
  := by
  have hmoves := Process.moves_of_act hact
  clear hact
  cases hmoves with
  | claims hphase hread =>
      simp only
      split
      · trivial
      · trivial
  | loads hphase => exact uninterrupted_load
  | downloadFails hphase hdownload => exact download_not_interrupted hexpected hdownload
  | inspectFails hphase hinspect => exact inspect_not_interrupted hexpected hinspect
  | @yields _ extraction _ tools _ hphase hnext =>
      have hyield : UninterruptedYield (extraction.next config unicode tools s.now) :=
        uninterrupted_next hexpected extraction
      rw [hnext] at hyield
      exact hyield
  | @extractFails _ extraction tools _ hphase hnext =>
      have hyield : UninterruptedYield (extraction.next config unicode tools s.now) :=
        uninterrupted_next hexpected extraction
      rw [hnext] at hyield
      exact hyield
  | throws hrun => exact Expected.not_interrupted hexpected
  | beats htimer => exact h
  | _ => trivial

theorem InterruptedInvariant.step {s s' : State} {a : Label} (h : InterruptedInvariant s)
    (hattempts : AttemptsInvariant s) (hexpected : a.Expected)
    (hstep : OcrWorker.step config unicode s a = some s') :
  InterruptedInvariant s'
  := by
  have hgrows := rowGrows_of_step hstep
  constructor
  · intro job' hjob' hstatus hcode
    rcases row_of_step hstep hjob' with ⟨job, hjob, rfl⟩ | ⟨_, _, _, _, _, rfl⟩
    · obtain ⟨row, hrow, hmax, hcount⟩ := hgrows job.id job (Table.mem_rows_iff.mp hjob)
      rw [find_of_step hstep (Table.mem_rows_iff.mp hjob), Option.mem_def] at hrow
      obtain rfl := Option.some.inj hrow
      have hbefore : job.maxAttempts ≤ job.attemptCount := by
        unfold Label.applied at hstatus hcode
        split at hstatus
        · rename_i w hw
          rw [hw] at hcode
          simp only at hcode
          split at hstatus
          · rename_i hid
            rw [if_pos hid] at hcode
            unfold Update.apply at hstatus hcode
            split at hstatus
            · rename_i hguard
              rw [if_pos hguard] at hcode
              rcases interrupted_data w hstatus hcode with ⟨hold, holdCode⟩ | ⟨message, hfail⟩
                | ⟨page, hpage, hpageCode⟩
              · apply h.rows job hjob hold holdCode
              · rw [hfail, hid] at hw
                apply exhausted_of_fail h hattempts hjob hw
              · exact absurd hpageCode (h.pages page (List.mem_of_mem_filter hpage))
            · rename_i hguard
              rw [if_neg hguard] at hcode
              apply h.rows job hjob hstatus hcode
          · rename_i hid
            rw [if_neg hid] at hcode
            apply h.rows job hjob hstatus hcode
        · rename_i hw
          rw [hw] at hcode
          apply h.rows job hjob hstatus hcode
      omega
    · cases hstatus
  · intro page hpage
    rcases page_of_step hstep hpage with hpage | ⟨q, hq, job, extracted, rest, -, hphase, rfl⟩
    · apply h.pages page hpage
    · have hclean := h.phases q hq
      rw [hphase] at hclean
      apply hclean
  · intro r hr
    cases processStep_of_step hstep hr with
    | acts hq ha hact hs' =>
        subst ha
        exact uninterrupted_act (h.phases _ hq) hact hexpected
    | stays hq => apply h.phases r hq
    | delivered id jobId => trivial
  · intro r' hr' job hjob
    rcases remaining_of_step hstep hr' with ⟨r, hr, hsubset⟩ | ⟨readAt, hread⟩
    · rintro _ ⟨⟩
      obtain ⟨row, hrow, hmax, hcount⟩ := h.snapshots r hr job (hsubset hjob) job rfl
      obtain ⟨row', hrow', hmax', hcount'⟩ := hgrows job.id row hrow
      exact ⟨row', hrow', hmax'.trans hmax, Nat.le_trans hcount hcount'⟩
    · rw [hread] at hjob
      rintro _ ⟨⟩
      apply hgrows job.id
      apply Table.mem_rows_iff.mp
      have hmem := List.mem_of_mem_take hjob
      rw [List.mem_insertionSort] at hmem
      apply List.mem_of_mem_filter hmem

theorem attemptsInvariant_init {s : State} (hinit : (system config unicode).init s) :
  AttemptsInvariant s
  := by
  obtain ⟨-, -, hprocesses, -⟩ := hinit
  constructor
  · rw [hprocesses]
    rintro _ ⟨⟩
  · rw [hprocesses]
    rintro _ ⟨⟩

theorem interruptedInvariant_init {s : State} (hinit : (system config unicode).init s) :
  InterruptedInvariant s
  := by
  obtain ⟨hjobs, hpages, hprocesses, hreconcilers⟩ := hinit
  constructor
  · rw [hjobs]
    rintro _ ⟨⟩
  · rw [hpages]
    rintro _ ⟨⟩
  · rw [hprocesses]
    rintro _ ⟨⟩
  · rw [hreconcilers]
    rintro _ ⟨⟩

/-- In every run `run` is entered for a job at most `maxAttempts` times.  A job that FAILED with
`OCR_WORKER_INTERRUPTED` has had `maxAttempts` attempts, provided the tools do not throw that code
themselves. -/
theorem attempts_bounded {s s' : State} {ts : List (Transition State Label)}
    (hrun : (system config unicode).Run s ts s') (hinit : (system config unicode).init s)
    {jobId : ℕ} {job : OcrJob} (hjob : s'.db.ocrJobs.find jobId = some job) :
  ts.countP (entersRun jobId) ≤ job.maxAttempts
  ∧ ((∀ t ∈ ts, t.label.Expected) → job.status = .FAILED →
    job.errorCode = some .OCR_WORKER_INTERRUPTED → job.maxAttempts ≤ job.attemptCount)
  := by
  have hattempts : ∀ t ∈ ts, (system config unicode).step t.source t.label = some t.target →
      AttemptsInvariant t.source → AttemptsInvariant t.target :=
    fun t _ hstep h => h.step hstep
  have hsources := fun t ht => hrun.invariant_source AttemptsInvariant
    (attemptsInvariant_init hinit) hattempts (t := t) ht
  constructor
  · have hcount : ts.countP (entersRun jobId) + entered jobId s ≤ entered jobId s' :=
      hrun.countP_add_le (entered jobId) fun t ht =>
        entered_step (hsources t ht) (hrun.step_of_mem ht) jobId
    have hle := entered_le (hrun.invariant (attemptsInvariant_init hinit) hattempts) hjob
    omega
  · intro hexpected
    have hinterrupted : InterruptedInvariant s' := by
      apply hrun.invariant (interruptedInvariant_init hinit)
      intro t ht hstep h
      apply h.step (hsources t ht) (hexpected t ht) hstep
    apply hinterrupted.rows job (Table.mem_of_find hjob)

/-- Process `p` enters `run` and dies there; the job goes stale. -/
def sampleCrash (p readAt : ℕ) : List Label :=
  [.deliver p 1] ++ sampleClaim p readAt ++ [.process p .die, .tick 120001]

/-- Three workers enter `run` and die there, and the reconciler finds the third one silent. -/
def crashingWorkers : List Label :=
  [.createJob 1 7 1 (js "eng") 0] ++ sampleCrash 1 0 ++ sampleCrash 2 120001
    ++ sampleCrash 3 240002 ++ [.reconcile 1 360003, .reconcileNext 1 360003]

/-- The job was attempted three times, and has FAILED with all of its attempts used. -/
theorem attempts_bounded_of_crashingWorkers :
  ∃ ts s' job, (system sampleConfig asciiUnicode).Run sampleState ts s'
    ∧ s'.db.ocrJobs.find 1 = some job
    ∧ (job.status, job.errorCode, job.maxAttempts) = (.FAILED, some .OCR_WORKER_INTERRUPTED, 3)
    ∧ ts.countP (entersRun 1) ≤ job.maxAttempts
    ∧ job.maxAttempts ≤ job.attemptCount
  := by
  have hsome : ((system sampleConfig asciiUnicode).execute (fun _ => true) sampleState
      crashingWorkers).any (fun s => (s.db.ocrJobs.find 1).any fun job =>
        (job.status, job.errorCode, job.maxAttempts) = (.FAILED, some .OCR_WORKER_INTERRUPTED, 3))
      = true := by
    decide +kernel
  obtain ⟨s', hs, hend⟩ := (Option.any_eq_true _ _).mp hsome
  obtain ⟨job, hjob, hcolumns⟩ := (Option.any_eq_true _ _).mp hend
  have hcolumns := of_decide_eq_true hcolumns
  obtain ⟨ts, hrun, -, hlabels⟩ := TransitionSystem.run_of_execute_labels hs
  obtain ⟨hle, hfailed⟩ := attempts_bounded hrun ⟨rfl, rfl, rfl, rfl⟩ hjob
  refine ⟨ts, s', job, hrun, hjob, hcolumns, hle, hfailed ?_ ?_ ?_⟩
  · have hexpected : ∀ a ∈ crashingWorkers, a.Expected := by
      simp [crashingWorkers, sampleCrash, sampleClaim, Label.Expected, Action.Expected]
    intro t ht
    apply hexpected
    rw [← hlabels]
    apply List.mem_map_of_mem ht
  · exact (Prod.mk.inj hcolumns).1
  · exact (Prod.mk.inj (Prod.mk.inj hcolumns).2).1

end OcrWorker

end DocuAI
