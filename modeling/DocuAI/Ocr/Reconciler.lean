import DocuAI.Ocr.Attempts

/-!
# The reconciler and live jobs

A pass of the reconciler works through the stale jobs as it read them.  By the time it turns to one
of them, its worker may have come back.  `recover` looks at the heartbeat again in the statement
itself, `fail` does not: a job that the pass has read without an attempt left is failed whatever has
become of it since.
-/

namespace DocuAI

/-- The job is PROCESSING with a heartbeat that is not older than `staleMs`. -/
def OcrJob.isLive (staleMs now : ℕ) (job : OcrJob) : Bool :=
  job.status = .PROCESSING && !job.isStale staleMs now

/-- What is stale at one time is not live later. -/
theorem OcrJob.isStale_eq_false_of_isLive {job : OcrJob} {staleMs readAt now : ℕ}
    (hread : readAt ≤ now) (h : job.isLive staleMs now = true) :
  job.isStale staleMs readAt = false
  := by
  simp only [isLive, Bool.and_eq_true, Bool.not_eq_true'] at h
  obtain ⟨-, hfresh⟩ := h
  unfold isStale at hfresh ⊢
  cases hbeat : job.heartbeatAt with
  | none =>
      rw [hbeat] at hfresh
      cases hfresh
  | some heartbeatAt =>
      rw [hbeat] at hfresh
      simp only [decide_eq_false_iff_not] at hfresh ⊢
      omega

/-- `recover` leaves a live job alone. -/
theorem OcrJobService.recover_guard_of_isLive {job : OcrJob} {staleMs readAt now : ℕ}
    (hread : readAt ≤ now) (h : job.isLive staleMs now = true) :
  (recoverUpdate staleMs readAt now).guard job = false
  := by
  simp only [recoverUpdate, OcrJob.isStale_eq_false_of_isLive hread h, Bool.and_false]

namespace OcrWorker

variable {config : OcrConfig} {unicode : Unicode}

/-- The step is one of a reconciler. -/
def Label.reconciles : Label → Bool
  | .reconcile _ _ | .reconcileNext _ _ | .reconcileAbort _ => true
  | _ => false

/-- The transition changes no live job, if it is one of a reconciler. -/
def LeavesLiveAlone (config : OcrConfig) (t : Transition State Label) : Prop :=
  t.label.reconciles = true → ∀ job ∈ t.source.db.ocrJobs.rows,
    job.isLive config.staleJobMs t.source.now = true → job ∈ t.target.db.ocrJobs.rows

/-- The job that the transition turns to is not live, if it was read without an attempt left. -/
def SparesLive (config : OcrConfig) (t : Transition State Label) : Prop :=
  match t.label with
  | .reconcileNext reconcilerId _ =>
      ∀ r ∈ t.source.reconcilers.find reconcilerId, ∀ seen ∈ r.remaining.head?,
        seen.maxAttempts ≤ seen.attemptCount →
          ∀ job ∈ t.source.db.ocrJobs.find seen.id,
            job.isLive config.staleJobMs t.source.now = false
  | _ => True

instance (t : Transition State Label) : Decidable (LeavesLiveAlone config t) := by
  unfold LeavesLiveAlone
  infer_instance

instance (t : Transition State Label) : Decidable (SparesLive config t) := by
  unfold SparesLive
  split
  · infer_instance
  · infer_instance

/-- What a reconciler sends for the next job of its pass. -/
theorem database_of_reconcileNext {s s' : State} {reconcilerId readAt : ℕ}
    (h : step config unicode s (.reconcileNext reconcilerId readAt) = some s') :
  ∃ r ∈ s.reconcilers.find reconcilerId, ∃ seen ∈ r.remaining.head?, readAt ≤ s.now
    ∧ s'.db = ((Reconciler.write seen readAt).perform config.staleJobMs s.now s.db).1
  := by
  cases moves_of_step h with
  | treats hr hremaining hread => exact ⟨_, hr, _, by rw [hremaining]; rfl, hread, rfl⟩

/-- A reconciler that fails a job changes it, whether it is live or not. -/
theorem find_of_failed {staleMs now readAt : ℕ} {db : Database} {seen job : OcrJob}
    (hattempts : seen.maxAttempts ≤ seen.attemptCount) (hjob : db.ocrJobs.find seen.id = some job)
    (hstatus : job.status = .PROCESSING) :
  ∃ job', ((Reconciler.write seen readAt).perform staleMs now db).1.ocrJobs.find seen.id = some job'
    ∧ job'.status = .FAILED
  := by
  have hguard : ((Write.fail seen.id .OCR_WORKER_INTERRUPTED attemptsExhausted).update staleMs now
      db).guard job = true := by
    simp [Write.update, OcrJobService.endUpdate, hstatus, ACTIVE_OCR_STATUSES]
  have hreply := (Write.perform_reply _).mpr ⟨job, hjob, hguard⟩
  obtain ⟨_, _, _, hafter⟩ := Write.find_of_reply hreply
  rw [Reconciler.write, if_pos hattempts]
  exact ⟨_, hafter, rfl⟩

/-- A reconciler leaves every live job alone but the one it fails. -/
theorem find_of_isLive {staleMs now readAt : ℕ} {db : Database} {seen job : OcrJob}
    (hread : readAt ≤ now) (hjob : db.ocrJobs.find job.id = some job)
    (hlive : job.isLive staleMs now = true)
    (hspared : seen.maxAttempts ≤ seen.attemptCount → job.id ≠ seen.id) :
  ((Reconciler.write seen readAt).perform staleMs now db).1.ocrJobs.find job.id = some job
  := by
  rw [Write.find_perform]
  by_cases hattempts : seen.maxAttempts ≤ seen.attemptCount
  · simp only [Reconciler.write, if_pos hattempts, Write.jobId]
    rw [if_neg (hspared hattempts), hjob]
  · simp only [Reconciler.write, if_neg hattempts, Write.jobId]
    split
    · rename_i hid
      rw [← hid, hjob, Option.map_some, Update.apply_of_not_guard]
      apply OcrJobService.recover_guard_of_isLive hread hlive
    · apply hjob

/-- A transition leaves the live jobs alone exactly when it turns to none that it fails. -/
theorem leavesLiveAlone_iff {t : Transition State Label}
    (hstep : step config unicode t.source t.label = some t.target) :
  LeavesLiveAlone config t ↔ SparesLive config t
  := by
  obtain ⟨s, a, s'⟩ := t
  simp only at hstep
  cases a with
  | reconcileNext reconcilerId readAt =>
      obtain ⟨r, hr, seen, hseen, hread, hdb⟩ := database_of_reconcileNext hstep
      constructor
      · intro halone r' hr' seen' hseen' hattempts job hjob
        rw [Option.mem_def] at hr hr' hseen hseen' hjob
        obtain rfl := Option.some.inj (hr.symm.trans hr')
        obtain rfl := Option.some.inj (hseen.symm.trans hseen')
        by_contra hlive
        have hlive : job.isLive config.staleJobMs s.now = true := Bool.not_eq_false _ ▸ hlive
        have hprocessing : job.status = .PROCESSING := by
          simp only [OcrJob.isLive, Bool.and_eq_true, decide_eq_true_eq] at hlive
          apply hlive.1
        have hafter := halone rfl job (Table.mem_of_find hjob) hlive
        obtain ⟨job', hfind, hfailed⟩ := find_of_failed hattempts hjob hprocessing
        rw [← hdb, ← Table.key_of_find hjob, Table.mem_rows_iff.mp hafter] at hfind
        obtain rfl := Option.some.inj hfind
        rw [hprocessing] at hfailed
        cases hfailed
      · intro hspares _ job hjob hlive
        apply Table.mem_rows_iff.mpr
        rw [hdb]
        apply find_of_isLive hread (Table.mem_rows_iff.mp hjob) hlive
        intro hattempts hid
        have hnot := hspares r hr seen hseen hattempts job (hid ▸ Table.mem_rows_iff.mp hjob)
        rw [hlive] at hnot
        cases hnot
  | reconcile | reconcileAbort =>
      cases moves_of_step hstep
      exact ⟨fun _ => trivial, fun _ _ job hjob _ => hjob⟩
  | _ => exact ⟨fun _ => trivial, fun _ hreconciles => by cases hreconciles⟩

/-- In a run no reconciler changes a live job exactly when none turns to a live job that it has read
without an attempt left. -/
theorem live_jobs_left_alone_iff {s s' : State} {ts : List (Transition State Label)}
    (hrun : (system config unicode).Run s ts s') :
  (∀ t ∈ ts, LeavesLiveAlone config t) ↔ ∀ t ∈ ts, SparesLive config t
  := by
  constructor
  · intro halone t ht
    apply (leavesLiveAlone_iff (hrun.step_of_mem ht)).mp (halone t ht)
  · intro hspares t ht
    apply (leavesLiveAlone_iff (hrun.step_of_mem ht)).mpr (hspares t ht)

/-- The second worker of a job has come back when the reconciler turns to the job, which has an
attempt left. -/
def revivedWorker : List Label :=
  [.createJob 1 7 1 (js "eng") 0] ++ sampleCrash 1 0 ++ [.deliver 2 1] ++ sampleClaim 2 120001
    ++ [.tick 120001, .reconcile 1 240002, .process 2 .heartbeat, .reconcileNext 1 240002]

/-- The job of the revived worker is left alone. -/
theorem live_jobs_left_alone_of_revivedWorker :
  ∃ ts s', (system sampleConfig asciiUnicode).Run sampleState ts s'
    ∧ (∃ job ∈ s'.db.ocrJobs.find 1, job.status = .PROCESSING)
    ∧ ∀ t ∈ ts, LeavesLiveAlone sampleConfig t
  := by
  have hsome : ((system sampleConfig asciiUnicode).execute
      (fun t => decide (SparesLive sampleConfig t)) sampleState revivedWorker).any (fun s =>
        (s.db.ocrJobs.find 1).any fun job => decide (job.status = .PROCESSING)) = true := by
    decide +kernel
  obtain ⟨s', hs, hprocessing⟩ := (Option.any_eq_true _ _).mp hsome
  obtain ⟨ts, hrun, hts⟩ := TransitionSystem.run_of_execute hs
  refine ⟨ts, s', hrun, by simpa [Option.any_eq_true] using hprocessing, ?_⟩
  apply (live_jobs_left_alone_iff hrun).mpr
  intro t ht
  exact of_decide_eq_true (hts t ht)

/-- The third and last worker of a job comes back after the reconciler has read the job, and before
it turns to it. -/
def revivedLastWorker : List Label :=
  [.createJob 1 7 1 (js "eng") 0] ++ sampleCrash 1 0 ++ sampleCrash 2 120001 ++ [.deliver 3 1]
    ++ sampleClaim 3 240002
    ++ [.tick 120001, .reconcile 1 360003, .process 3 .heartbeat, .reconcileNext 1 360003]

/-- The reconciler fails the job whose worker has just renewed its heartbeat. -/
theorem reconciler_fails_live_job :
  ∃ ts s', (system sampleConfig asciiUnicode).init sampleState
    ∧ (system sampleConfig asciiUnicode).Run sampleState ts s'
    ∧ (∃ job ∈ s'.db.ocrJobs.find 1, job.status = .FAILED)
    ∧ ∃ t ∈ ts, ¬LeavesLiveAlone sampleConfig t
  := by
  have hsome : ((system sampleConfig asciiUnicode).execute (fun _ => true) sampleState
      revivedLastWorker).any (fun s => (s.db.ocrJobs.find 1).any fun job =>
        decide (job.status = .FAILED)) = true := by
    decide +kernel
  have hnone : ((system sampleConfig asciiUnicode).execute
      (fun t => decide (LeavesLiveAlone sampleConfig t)) sampleState revivedLastWorker).isNone
        = true := by
    decide +kernel
  obtain ⟨s', hs, hfailed⟩ := (Option.any_eq_true _ _).mp hsome
  obtain ⟨ts, hrun, t, ht, hchanges⟩ :=
    TransitionSystem.exists_failing_of_execute hs (Option.isNone_iff_eq_none.mp hnone)
  exact ⟨ts, s', ⟨rfl, rfl, rfl, rfl⟩, hrun, by simpa [Option.any_eq_true] using hfailed, t, ht,
    of_decide_eq_false hchanges⟩

end OcrWorker

end DocuAI
