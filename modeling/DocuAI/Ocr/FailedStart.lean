import DocuAI.Ocr.Attempts
import DocuAI.Ocr.Ownership

/-!
# A worker that could not start

`process` starts the heartbeat timer before it creates its work directory, and clears it only when
`run` is over.  When the creation throws, `process` rejects with the timer running.  From then on
the job looks alive: as long as the program lives nobody claims, recovers or fails the job
(`Abandoned.step`), and nobody works on it.

A pass of a reconciler could still fail the job for what it read earlier.  It does not: what it read
of a job that a worker has claimed since has fewer attempts (`SnapshotsOutdated`).
-/

namespace DocuAI

namespace OcrWorker

variable {config : OcrConfig} {unicode : Unicode} {s s' : State} {a : Label} {jobId : ℕ}

/-! ### What the reconcilers have read -/

/-- What a reconciler has still to look at it had before the step, or it has just read that the
heartbeat is stale. -/
theorem seen_of_step (h : step config unicode s a = some s') {r' : Reconciler}
    (hr' : r' ∈ s'.reconcilers.rows) {seen : OcrJob} (hseen : seen ∈ r'.remaining) :
  (∃ r ∈ s.reconcilers.rows, seen ∈ r.remaining)
  ∨ s'.processes = s.processes ∧ s.db.ocrJobs.find seen.id = some seen
    ∧ seen.status = .PROCESSING ∧ ∀ b ∈ seen.heartbeatAt, b + config.staleJobMs < s.now
  := by
  have hkept {r : Reconciler} (hr : r ∈ s.reconcilers.rows) (hseen : seen ∈ r.remaining) :
      (∃ r ∈ s.reconcilers.rows, seen ∈ r.remaining)
      ∨ s'.processes = s.processes ∧ s.db.ocrJobs.find seen.id = some seen
        ∧ seen.status = .PROCESSING ∧ ∀ b ∈ seen.heartbeatAt, b + config.staleJobMs < s.now :=
    .inl ⟨r, hr, hseen⟩
  cases moves_of_step h with
  | ticks | creates | writes | delivers => exact hkept hr' hseen
  | @acts _ _ e =>
      obtain ⟨write, next⟩ := e
      cases write with
      | none => exact hkept hr' hseen
      | some w => exact hkept hr' hseen
  | reconciles hread =>
      rcases Table.mem_rows_put_iff.mp hr' with rfl | ⟨hr', -⟩
      · have hrow := List.mem_of_mem_take hseen
        rw [List.mem_insertionSort, List.mem_filter, Bool.and_eq_true] at hrow
        obtain ⟨hrow, hstatus, hstale⟩ := hrow
        exact .inr ⟨rfl, Table.mem_rows_iff.mp hrow, of_decide_eq_true hstatus,
          OcrJob.isStale_mono hread hstale⟩
      · exact hkept hr' hseen
  | treats hr hremaining =>
      rcases Table.mem_rows_put_iff.mp hr' with rfl | ⟨hr', -⟩
      · apply hkept (Table.mem_of_find hr)
        rw [hremaining]
        exact List.mem_cons_of_mem _ hseen
      · exact hkept hr' hseen
  | aborts hr =>
      rcases Table.mem_rows_put_iff.mp hr' with rfl | ⟨hr', -⟩
      · cases hseen
      · exact hkept hr' hseen

/-- What a reconciler has read of a job is from before the claim of whoever holds the job. -/
def SnapshotsOutdated (jobId : ℕ) (s : State) : Prop :=
  ∀ r ∈ s.reconcilers.rows, ∀ seen ∈ r.remaining, seen.id = jobId →
    RowGrows (some seen) (s.db.ocrJobs.find jobId)
    ∧ ∀ q ∈ s.processes.rows, q.jobId = jobId → q.phase.holds = true →
      seen.attemptCount < q.attempt

/-- A process that holds its job after a step held it before, or has begun a new attempt. -/
theorem attempt_of_holds {q : Process} {action : Action} {e : Effect}
    (hact : q.act config unicode s.db s.now action = some e)
    (hholds : (e.next (e.reply config s)).phase.holds = true) :
  q.phase.holds = true ∧ (e.next (e.reply config s)).attempt = q.attempt
  ∨ ∃ job, s.db.ocrJobs.find q.jobId = some job
    ∧ (e.next (e.reply config s)).attempt = job.attemptCount + 1
  := by
  have hmoves := Process.moves_of_act hact
  clear hact
  cases hmoves with
  | @claims job readAt hphase hread =>
      cases hreply : ((Write.claim q.jobId readAt).perform config.staleJobMs s.now s.db).2 with
      | true =>
          obtain ⟨row, hrow, -⟩ := Write.find_of_reply hreply
          have hrow : s.db.ocrJobs.find q.jobId = some row := hrow
          right
          use row, hrow
          simp [Effect.reply, hreply, OcrJobService.findById, hrow]
      | false =>
          simp only [Effect.reply, hreply, Bool.false_eq_true, if_false] at hholds
          cases hholds
  | ignores | finds | concludes | givesUp | handles | rejects | dies => cases hholds
  | beats => exact .inl ⟨hholds, rfl⟩
  | throws hrun => exact .inl ⟨Phase.holds_of_inRun hrun, rfl⟩
  | _ hphase => exact .inl ⟨by rw [hphase]; rfl, rfl⟩

theorem SnapshotsOutdated.step (h : SnapshotsOutdated jobId s)
    (hstep : step config unicode s a = some s')
    (hguarded : Lease.Guarded config.staleJobMs (leaseOf s jobId)) :
  SnapshotsOutdated jobId s'
  := by
  have hgrows := rowGrows_of_step hstep jobId
  rintro r' hr' seen hseen rfl
  rcases seen_of_step hstep hr' hseen with ⟨r, hr, hseen⟩ | ⟨hprocesses, hrow, hstatus, hstale⟩
  · obtain ⟨hrow, holders⟩ := h r hr seen hseen rfl
    refine ⟨fun job hjob => ?_, fun q' hq' hjob hholds => ?_⟩
    · obtain ⟨row, hrow, hmax, hcount⟩ := hrow job hjob
      obtain ⟨row', hrow', hmax', hcount'⟩ := hgrows row hrow
      exact ⟨row', hrow', hmax'.trans hmax, hcount.trans hcount'⟩
    · cases processStep_of_step hstep hq' with
      | @acts q action e hq ha hact hs' =>
          rcases attempt_of_holds hact hholds with ⟨hheld, hattempt⟩ | ⟨row, hfind, hattempt⟩
          · rw [hattempt]
            exact holders q hq hjob hheld
          · obtain ⟨row', hrow', -, hcount⟩ := hrow seen rfl
            rw [← show q.jobId = seen.id from hjob, hfind, Option.mem_def] at hrow'
            obtain rfl := Option.some.inj hrow'
            rw [hattempt]
            omega
      | stays hq => exact holders q' hq hjob hholds
      | delivered => cases hholds
  · have hvacant := hguarded ⟨seen.heartbeatAt,
      grantIn_eq_held_iff.mpr ⟨seen, hrow, hstatus, rfl⟩, hstale⟩
    refine ⟨?_, fun q hq hjob hholds => ?_⟩
    · rw [hrow] at hgrows
      exact hgrows
    · rw [hprocesses] at hq
      have hholder := hvacant q.id
      rw [holder_eq_some_iff.mpr ⟨q, Table.mem_rows_iff.mp hq, hjob, hholds, rfl⟩] at hholder
      cases hholder

/-! ### A job that only looks alive -/

/-- A job whose claim came to nothing: the process renews the heartbeat of the PROCESSING job, nobody
holds it, and what a reconciler has read of it does not make it fail the job. -/
structure Abandoned (jobId processId attempts : ℕ) (pages : List OcrPage) (s : State) : Prop where
  row : ∃ job ∈ s.db.ocrJobs.find jobId, job.status = .PROCESSING ∧ job.attemptCount = attempts
    ∧ ∃ b ∈ job.heartbeatAt, ∃ q ∈ s.processes.find processId,
      q.jobId = jobId ∧ q.lastBeat ≤ b ∧ q.lastBeat ≤ s.now
  vacant : ∀ q ∈ s.processes.rows, q.jobId = jobId → q.phase.holds = false
  spared : ∀ r ∈ s.reconcilers.rows, ∀ seen ∈ r.remaining, seen.id = jobId →
    seen.attemptCount < seen.maxAttempts
  pages_eq : s.db.pagesOf jobId = pages

/-- The timer of the process has renewed the heartbeat at most `staleJobMs` ago. -/
def TimerInTime (config : OcrConfig) (processId : ℕ) (s : State) : Prop :=
  ∀ q ∈ s.processes.find processId, s.now ≤ q.lastBeat + config.staleJobMs

instance (processId : ℕ) (s : State) : Decidable (TimerInTime config processId s) := by
  unfold TimerInTime
  infer_instance

namespace Abandoned

variable {processId attempts : ℕ} {pages : List OcrPage}

/-- The heartbeat of an abandoned job is not stale. -/
theorem not_stale (h : Abandoned jobId processId attempts pages s)
    (htimer : TimerInTime config processId s) {job : OcrJob}
    (hjob : s.db.ocrJobs.find jobId = some job) :
  job.status = .PROCESSING ∧ ∃ b ∈ job.heartbeatAt, s.now ≤ b + config.staleJobMs
  := by
  obtain ⟨row, hrow, hstatus, -, b, hb, q, hq, -, hle, -⟩ := h.row
  rw [hjob, Option.mem_def] at hrow
  obtain rfl := Option.some.inj hrow
  have hnow := htimer q hq
  exact ⟨hstatus, b, hb, by omega⟩

/-- An abandoned job can neither be claimed nor recovered. -/
theorem refuses (h : Abandoned jobId processId attempts pages s)
    (htimer : TimerInTime config processId s) {w : Write} {readAt : ℕ} (hread : readAt ≤ s.now)
    (hw : w = .claim jobId readAt ∨ w = .recover jobId readAt) :
  (w.perform config.staleJobMs s.now s.db).2 = false
  := by
  by_contra hreply
  obtain ⟨job, hjob, hguard⟩ := (Write.perform_reply w).mp (Bool.not_eq_false _ ▸ hreply)
  have hwjob : w.jobId = jobId := by
    rcases hw with rfl | rfl
    · rfl
    · rfl
  rw [hwjob] at hjob
  obtain ⟨hstatus, b, hb, hle⟩ := h.not_stale htimer hjob
  have hexpired : ∃ renewedAt, job.grant = .held renewedAt
      ∧ ∀ r ∈ renewedAt, r + config.staleJobMs < s.now := by
    rcases hw with rfl | rfl
    · rcases OcrJobService.claim_guard hread hguard with hfree | hexpired
      · rw [OcrJob.grant_eq_free_iff, hstatus] at hfree
        cases hfree
      · exact hexpired
    · exact OcrJobService.recover_guard hread hguard
  obtain ⟨renewedAt, hgrant, hlt⟩ := hexpired
  obtain ⟨-, rfl⟩ := OcrJob.grant_eq_held_iff.mp hgrant
  have hb := hlt b hb
  omega

/-- A step of a process that leaves the row of the job and its pages alone, or renews the
heartbeat. -/
theorem put (h : Abandoned jobId processId attempts pages s) {q : Process} {p : Progress}
    {db : Database} (hq : s.processes.find q.id = some q)
    (hidle : q.jobId = jobId → p.phase.holds = false)
    (hbeat : (q.jobId = jobId → p.lastBeat = q.lastBeat)
        ∧ db.ocrJobs.find jobId = s.db.ocrJobs.find jobId
      ∨ p.lastBeat ≤ s.now ∧ ∃ job ∈ db.ocrJobs.find jobId, job.status = .PROCESSING
        ∧ job.attemptCount = attempts ∧ job.heartbeatAt = some s.now)
    (hpages : db.pagesOf jobId = s.db.pagesOf jobId) :
  Abandoned jobId processId attempts pages
    { s with db, processes := s.processes.put { q with toProgress := p } }
  := by
  obtain ⟨job, hjob, hstatus, hcount, b, hb, r, hr, hrjob, hle, hpast⟩ := h.row
  have hfind : ∃ r' ∈ (s.processes.put { q with toProgress := p }).find processId,
      r'.jobId = jobId
        ∧ (r'.lastBeat = r.lastBeat ∨ r'.lastBeat = p.lastBeat ∧ q = r) := by
    rw [Table.find_put]
    split
    · rename_i hid
      rw [hid, hq, Option.mem_def] at hr
      obtain rfl := Option.some.inj hr
      exact ⟨_, rfl, hrjob, .inr ⟨rfl, rfl⟩⟩
    · exact ⟨r, hr, hrjob, .inl rfl⟩
  obtain ⟨r', hr', hr'job, hlast⟩ := hfind
  constructor
  · rcases hbeat with ⟨hsame, hrow⟩ | ⟨hnow, job', hjob', hstatus', hcount', hb'⟩
    · have hlast : r'.lastBeat = r.lastBeat := by
        rcases hlast with hlast | ⟨hlast, rfl⟩
        · exact hlast
        · exact hlast.trans (hsame hrjob)
      exact ⟨job, hrow ▸ hjob, hstatus, hcount, b, hb, r', hr', hr'job, hlast ▸ hle, hlast ▸ hpast⟩
    · have hlast : r'.lastBeat ≤ s.now := by
        rcases hlast with hlast | ⟨hlast, -⟩
        · exact hlast ▸ hpast
        · exact hlast ▸ hnow
      exact ⟨job', hjob', hstatus', hcount', s.now, hb', r', hr', hr'job, hlast, hlast⟩
  · intro q' hq' hjob'
    rcases Table.mem_rows_put_iff.mp hq' with rfl | ⟨hq', -⟩
    · exact hidle hjob'
    · exact h.vacant q' hq' hjob'
  · exact h.spared
  · exact hpages.trans h.pages_eq

/-- A step of a process keeps an abandoned job abandoned. -/
theorem apply (h : Abandoned jobId processId attempts pages s)
    (htimer : TimerInTime config processId s) {q : Process} {action : Action} {e : Effect}
    (hq : s.processes.find q.id = some q)
    (hact : q.act config unicode s.db s.now action = some e) :
  Abandoned jobId processId attempts pages (s.apply config q e)
  := by
  by_cases hjob : q.jobId = jobId
  · subst hjob
    have hidle := h.vacant q (Table.mem_of_find hq) rfl
    cases Process.act_acts hact with
    | quiet hbeat hholds =>
        apply h.put hq _ (.inl ⟨fun _ => hbeat, rfl⟩) rfl
        intro _
        by_contra hheld
        rw [hholds (Bool.not_eq_false _ ▸ hheld)] at hidle
        cases hidle
    | claim hphase hread =>
        have hrefused := h.refuses htimer hread (.inl rfl)
        simp only [State.apply, hrefused, Bool.false_eq_true, if_false]
        exact h.put hq (fun _ => rfl) (.inl ⟨fun _ => rfl, (Write.find_of_not_reply hrefused).2⟩)
          (Write.pagesOf_perform (by rintro _ ⟨⟩))
    | heartbeat =>
        obtain ⟨job, hjob, hstatus, hcount, -⟩ := h.row
        have hguard : ((Write.heartbeat q.jobId).update config.staleJobMs s.now s.db).guard job
            = true := decide_eq_true hstatus
        have hreply := (Write.perform_reply (Write.heartbeat q.jobId)).mpr ⟨job, hjob, hguard⟩
        obtain ⟨row, hrow, -, hafter⟩ := Write.find_of_reply hreply
        obtain rfl := Option.some.inj (hrow.symm.trans hjob)
        simp only [State.apply, hreply]
        exact h.put hq (fun _ => hidle) (.inr ⟨le_refl _, _, hafter, hstatus, hcount, rfl⟩)
          (Write.pagesOf_perform (by rintro _ ⟨⟩))
    | measure hphase | persist hphase | finalize hphase | cancel hphase =>
        rw [hphase] at hidle
        cases hidle
    | fail hholds | requeue hholds =>
        rw [hholds] at hidle
        cases hidle
  · obtain ⟨write, next⟩ := e
    cases write with
    | none => exact h.put hq (absurd · hjob) (.inl ⟨(absurd · hjob), rfl⟩) rfl
    | some w =>
        have hne : jobId ≠ w.jobId := by
          rw [(Process.act_acts hact).jobId_write]
          exact Ne.symm hjob
        apply h.put hq (absurd · hjob) (.inl ⟨(absurd · hjob), ?_⟩)
        · apply Write.pagesOf_perform
          rintro page rfl
          exact hne rfl
        · rw [Write.find_perform, if_neg hne]

/-- What a reconciler has read of an abandoned job it had read before the job was. -/
theorem spared_of_step (h : Abandoned jobId processId attempts pages s)
    (hstep : OcrWorker.step config unicode s a = some s') (htimer : TimerInTime config processId s) :
  ∀ r ∈ s'.reconcilers.rows, ∀ seen ∈ r.remaining, seen.id = jobId →
    seen.attemptCount < seen.maxAttempts
  := by
  rintro r' hr' seen hseen rfl
  rcases seen_of_step hstep hr' hseen with ⟨r, hr, hseen⟩ | ⟨-, hrow, -, hstale⟩
  · exact h.spared r hr seen hseen rfl
  · obtain ⟨-, b, hb, hle⟩ := h.not_stale htimer hrow
    have hlt := hstale b hb
    omega

/-- A reconciler leaves an abandoned job alone. -/
theorem find_treated (h : Abandoned jobId processId attempts pages s)
    (htimer : TimerInTime config processId s) {r : Reconciler} (hr : r ∈ s.reconcilers.rows)
    {seen : OcrJob} (hseen : seen ∈ r.remaining) {readAt : ℕ} (hread : readAt ≤ s.now) :
  ((Reconciler.write seen readAt).perform config.staleJobMs s.now s.db).1.ocrJobs.find jobId
    = s.db.ocrJobs.find jobId
  := by
  by_cases hid : seen.id = jobId
  · subst hid
    have hlt := h.spared r hr seen hseen rfl
    have hwrite : Reconciler.write seen readAt = .recover seen.id readAt := if_neg (by omega)
    rw [hwrite]
    exact (Write.find_of_not_reply (h.refuses htimer hread (.inr rfl))).2
  · have hwrite : (Reconciler.write seen readAt).jobId = seen.id := by
      unfold Reconciler.write
      split
      · rfl
      · rfl
    rw [Write.find_perform, hwrite, if_neg (Ne.symm hid)]

/-- As long as the timer is in time, every step keeps an abandoned job abandoned. -/
theorem step (h : Abandoned jobId processId attempts pages s)
    (hstep : OcrWorker.step config unicode s a = some s') (htimer : TimerInTime config processId s) :
  Abandoned jobId processId attempts pages s'
  := by
  have hspared := h.spared_of_step hstep htimer
  cases moves_of_step hstep with
  | ticks ms =>
      obtain ⟨job, hjob, hstatus, hcount, b, hb, q, hq, hqjob, hle, hpast⟩ := h.row
      exact ⟨⟨job, hjob, hstatus, hcount, b, hb, q, hq, hqjob, hle, Nat.le_add_right_of_le hpast⟩,
        h.vacant, h.spared, h.pages_eq⟩
  | creates hcreate =>
      obtain ⟨job, hjob, hrest⟩ := h.row
      exact ⟨⟨job, Table.find_create_of_find hcreate hjob, hrest⟩, h.vacant, h.spared, h.pages_eq⟩
  | writes => exact ⟨h.row, h.vacant, h.spared, h.pages_eq⟩
  | delivers hcreate =>
      obtain ⟨job, hjob, hstatus, hcount, b, hb, q, hq, hrest⟩ := h.row
      refine ⟨⟨job, hjob, hstatus, hcount, b, hb, q, Table.find_create_of_find hcreate hq, hrest⟩,
        ?_, h.spared, h.pages_eq⟩
      exact Table.forall_create h.vacant hcreate fun _ => rfl
  | acts hq hact => exact h.apply htimer hq hact
  | reconciles | aborts => exact ⟨h.row, h.vacant, hspared, h.pages_eq⟩
  | @treats r seen remaining readAt hr hremaining hread =>
      have hfind := h.find_treated htimer (Table.mem_of_find hr)
        (hremaining ▸ List.mem_cons_self) hread
      obtain ⟨job, hjob, hrest⟩ := h.row
      refine ⟨⟨job, hfind.trans hjob, hrest⟩, h.vacant, hspared, ?_⟩
      rw [← h.pages_eq]
      apply Write.pagesOf_perform
      intro page
      unfold Reconciler.write
      split
      · rintro ⟨⟩
      · rintro ⟨⟩

end Abandoned

/-- A process that rejects before it has entered `run` abandons its job. -/
theorem abandoned_of_throw {q : Process} {job row : OcrJob} {error : Thrown}
    (hattempts : AttemptsInvariant s) (hvalid : Lease.Valid (leaseOf s q.jobId))
    (hsnapshots : SnapshotsOutdated q.jobId s) (hq : s.processes.find q.id = some q)
    (hphase : q.phase = .starting job) (hrow : s.db.ocrJobs.find q.jobId = some row)
    (hprocessing : row.status = .PROCESSING)
    (hstep : step config unicode s (.process q.id (.throw error)) = some s') :
  Abandoned q.jobId q.id row.attemptCount (s.db.pagesOf q.jobId) s'
  := by
  have hmem := Table.mem_of_find hq
  have hholds : q.phase.holds = true := by
    rw [hphase]
    rfl
  obtain ⟨e, hact, rfl⟩ := target_of_step hmem hstep
  have he : e = ⟨none, fun _ => q.goTo .returned⟩ := by
    simp only [Process.act, Process.throw, hphase] at hact
    exact (Option.some.inj hact).symm
  subst he
  have hholder : (leaseOf s q.jobId).holder q.id = some q.lastBeat :=
    holder_eq_some_iff.mpr ⟨q, hq, rfl, hholds, rfl⟩
  obtain ⟨b, hb, hle⟩ := hvalid.renewed q.id q.lastBeat row.heartbeatAt hholder
    (grantIn_eq_held_iff.mpr ⟨row, hrow, hprocessing, rfl⟩)
  constructor
  · refine ⟨row, hrow, hprocessing, rfl, b, hb, { q with toProgress := q.goTo .returned }, ?_, rfl,
      hle, hvalid.past q.id q.lastBeat hholder⟩
    exact (Table.find_put _ _ _).trans (if_pos rfl)
  · intro p hp hjob
    rcases Table.mem_rows_put_iff.mp hp with rfl | ⟨hp, hne⟩
    · rfl
    · by_contra hheld
      apply hne
      rw [eq_of_valid hvalid hp hmem hjob rfl (Bool.not_eq_false _ ▸ hheld) hholds]
  · intro r hr seen hseen hid
    obtain ⟨hgrows, hholders⟩ := hsnapshots r hr seen hseen hid
    have hlt := hholders q hmem rfl hholds
    have hknows := hattempts.knows q hmem
    obtain ⟨-, row', hrow', -, hle⟩ := hknows.timer (hknows.starting job hphase)
    obtain ⟨row'', hrow'', hmax, -⟩ := hgrows seen rfl
    obtain rfl := Option.some.inj (Option.mem_def.mp hrow'' ▸ Option.mem_def.mp hrow')
    omega
  · rfl

/-- A worker whose work directory cannot be made blocks its job.  In every run in which the workers
that have claimed the job renew its heartbeat in time, once a call of a worker throws between
starting the heartbeat timer and entering `run`: as long as this timer goes on in time, whatever
the queue delivers and the reconcilers do, the job stays PROCESSING in the same attempt, no page is
stored for it, and no worker ever claims it. -/
theorem failed_start_blocks_job {s₀ : State} {before after : List (Transition State Label)}
    {t : Transition State Label} (hrun : (system config unicode).Run s₀ (before ++ t :: after) s)
    (hinit : (system config unicode).init s₀) {q : Process} {job row : OcrJob} {error : Thrown}
    (hthrows : t.label = .process q.id (.throw error))
    (hq : t.source.processes.find q.id = some q) (hphase : q.phase = .starting job)
    (hrow : t.source.db.ocrJobs.find q.jobId = some row) (hprocessing : row.status = .PROCESSING)
    (hbeats : ∀ t' ∈ before, HeartbeatsInTime config q.jobId t'.source)
    (htimer : ∀ t' ∈ after, TimerInTime config q.id t'.source) :
  (∃ row' ∈ s.db.ocrJobs.find q.jobId, row'.status = .PROCESSING
    ∧ row'.attemptCount = row.attemptCount)
  ∧ s.db.pagesOf q.jobId = t.source.db.pagesOf q.jobId
  ∧ ∀ p ∈ s.processes.rows, p.jobId = q.jobId → p.phase.holds = false
  := by
  obtain ⟨hbefore, hafter⟩ := hrun.of_append_cons
  have hstep := hrun.step_of_mem (List.mem_append_right _ List.mem_cons_self)
  have hstart : AttemptsInvariant t.source ∧ Lease.Valid (leaseOf t.source q.jobId)
      ∧ SnapshotsOutdated q.jobId t.source := by
    apply hbefore.invariant (I := fun s => AttemptsInvariant s ∧ Lease.Valid (leaseOf s q.jobId)
      ∧ SnapshotsOutdated q.jobId s)
    · refine ⟨attemptsInvariant_init hinit, valid_init hinit q.jobId, ?_⟩
      intro r hr
      rw [hinit.2.2.2] at hr
      cases hr
    · rintro t' ht' hstep' ⟨hattempts, hvalid, hsnapshots⟩
      have hguarded := Lease.guarded_of_prompt hvalid (prompt_of_heartbeatsInTime (hbeats t' ht'))
      exact ⟨hattempts.step hstep', valid_step hstep' hguarded hvalid,
        hsnapshots.step hstep' hguarded⟩
  obtain ⟨hattempts, hvalid, hsnapshots⟩ := hstart
  rw [hthrows] at hstep
  have habandoned : Abandoned q.jobId q.id row.attemptCount (t.source.db.pagesOf q.jobId) s := by
    apply hafter.invariant
      (abandoned_of_throw hattempts hvalid hsnapshots hq hphase hrow hprocessing hstep)
    intro t' ht' hstep' h
    exact h.step hstep' (htimer t' ht')
  obtain ⟨row', hrow', hstatus, hcount, -⟩ := habandoned.row
  exact ⟨⟨row', hrow', hstatus, hcount⟩, habandoned.pages_eq, habandoned.vacant⟩

/-- The first worker claims the job, and has no disk space left. -/
def claimWithoutSpace : List Label :=
  [.createJob 1 7 1 (js "eng") 0, .deliver 1 1, .process 1 .advance, .process 1 (.claim 0),
    .process 1 .advance]

/-- More than `staleJobMs` later the queue delivers the job again, and a reconciler looks. -/
def redelivery : List Label :=
  [.tick 100000, .process 1 .heartbeat, .tick 100000, .deliver 2 1, .process 2 .advance,
    .process 2 (.claim 200000), .reconcile 1 200000]

/-- The second worker does not get the job, which waits for nobody. -/
theorem failed_start_blocks_job_of_redelivery :
  ∃ s₁ s₂ s, ((system sampleConfig asciiUnicode).execute
      (fun t => decide (HeartbeatsInTime sampleConfig 1 t.source)) sampleState claimWithoutSpace
        = some s₁)
    ∧ (system sampleConfig asciiUnicode).step s₁ (.process 1 (.throw (.other (js "ENOSPC"))))
        = some s₂
    ∧ (system sampleConfig asciiUnicode).execute
      (fun t => decide (TimerInTime sampleConfig 1 t.source)) s₂ redelivery = some s
    ∧ (∃ row ∈ s.db.ocrJobs.find 1, row.status = .PROCESSING ∧ row.attemptCount = 1)
    ∧ s.db.pagesOf 1 = s₁.db.pagesOf 1
    ∧ ∀ p ∈ s.processes.rows, p.jobId = 1 → p.phase.holds = false
  := by
  have hsome : ((system sampleConfig asciiUnicode).execute
      (fun t => decide (HeartbeatsInTime sampleConfig 1 t.source)) sampleState
        claimWithoutSpace).any (fun s₁ =>
      (s₁.processes.find 1).any (fun q => decide (q.id = 1) && decide (q.jobId = 1)
        && s₁.db.ocrJobs.rows.any fun job => decide (q.phase = .starting job))
      && (s₁.db.ocrJobs.find 1).any (fun row => decide (row.status = .PROCESSING)
        && decide (row.attemptCount = 1))
      && ((system sampleConfig asciiUnicode).step s₁
        (.process 1 (.throw (.other (js "ENOSPC"))))).any fun s₂ =>
          ((system sampleConfig asciiUnicode).execute
            (fun t => decide (TimerInTime sampleConfig 1 t.source)) s₂ redelivery).isSome) = true := by
    decide +kernel
  obtain ⟨s₁, hs₁, hsome⟩ := (Option.any_eq_true _ _).mp hsome
  simp only [Bool.and_eq_true] at hsome
  obtain ⟨⟨hprocess, hjob⟩, hsome⟩ := hsome
  obtain ⟨q, hq, hstarting⟩ := (Option.any_eq_true _ _).mp hprocess
  simp only [Bool.and_eq_true, decide_eq_true_eq] at hstarting
  obtain ⟨⟨hid, hjobId⟩, hstarting⟩ := hstarting
  obtain ⟨row, hrow, hprocessing⟩ := (Option.any_eq_true _ _).mp hjob
  simp only [Bool.and_eq_true, decide_eq_true_eq] at hprocessing
  obtain ⟨s₂, hs₂, hsome⟩ := (Option.any_eq_true _ _).mp hsome
  obtain ⟨s, hs⟩ := Option.isSome_iff_exists.mp hsome
  obtain ⟨before, hbefore, hbeats⟩ := TransitionSystem.run_of_execute hs₁
  obtain ⟨after, hafter, htimer⟩ := TransitionSystem.run_of_execute hs
  refine ⟨s₁, s₂, s, hs₁, hs₂, hs, ?_⟩
  obtain ⟨job, -, hphase⟩ := List.any_eq_true.mp hstarting
  have hblocks := failed_start_blocks_job (q := q)
    (hbefore.append (.cons hs₂ hafter)) ⟨rfl, rfl, rfl, rfl⟩ (by rw [hid]) (hid ▸ hq)
    (of_decide_eq_true hphase) (hjobId ▸ hrow) hprocessing.1
    (fun t ht => hjobId ▸ of_decide_eq_true (hbeats t ht))
    (fun t ht => hid ▸ of_decide_eq_true (htimer t ht))
  rw [hjobId, hprocessing.2] at hblocks
  exact hblocks

end OcrWorker

end DocuAI
