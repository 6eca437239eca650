import DocuAI.Ocr.Completeness

/-!
# Progress and the page count

`processedPages` is meant to stay below `totalPages`.  Three statements write these columns, and none
of them looks at what the others have left there: a new attempt may measure fewer pages than the
pages of the earlier ones that are still stored.  The columns stay in bounds exactly as long as
every write fits what it finds (`Write.FitsProgress`).
-/

namespace DocuAI

/-- The counters of the job are within its page count, if it is known. -/
def OcrJob.ProgressBounded (job : OcrJob) : Prop :=
  ∀ n ∈ job.totalPages, job.processedPages ≤ n ∧ job.failedPages ≤ job.processedPages

/-- The counters of the job are in order, whether its page count is known or not. -/
structure OcrJob.Counted (job : OcrJob) : Prop where
  failed_le : job.failedPages ≤ job.processedPages
  processed_le : ∀ n ∈ job.totalPages, job.processedPages ≤ n

/-- What a write does to a PROCESSING job fits the state it meets: a page count is not below the
pages already counted, with the new page no more than `totalPages` pages are FAILED, and no more
than `totalPages` pages are stored when the job is finalized. -/
def Write.FitsProgress (db : Database) : Write → Prop
  | .setTotalPages jobId _ totalPages => ∀ job ∈ db.ocrJobs.find jobId, job.status = .PROCESSING →
      job.processedPages ≤ totalPages
  | .persistPage jobId page => ∀ job ∈ db.ocrJobs.find jobId, job.status = .PROCESSING →
      ∀ n ∈ job.totalPages,
        (failedPages ((db.pagesOf jobId).filter fun other =>
          other.pageNumber ≠ page.pageNumber)).length + (if page.status = .FAILED then 1 else 0) ≤ n
  | .finalize jobId => ∀ job ∈ db.ocrJobs.find jobId, job.status = .PROCESSING →
      ∀ n ∈ job.totalPages, (db.pagesOf jobId).length ≤ n
  | _ => True

instance (job : OcrJob) : Decidable job.ProgressBounded := by
  unfold OcrJob.ProgressBounded
  infer_instance

instance (db : Database) (w : Write) : Decidable (w.FitsProgress db) := by
  cases w <;> unfold Write.FitsProgress <;> infer_instance

theorem OcrJob.Counted.progressBounded {job : OcrJob} (h : job.Counted) :
  job.ProgressBounded
  := fun n hn => ⟨h.processed_le n hn, h.failed_le⟩

/-- The FAILED pages of a job after storing a page. -/
theorem length_failedPages_storePage (db : Database) (jobId : ℕ) (page : ExtractedPage) :
  (failedPages ((db.storePage (OcrJobService.pageRow jobId page)).pagesOf jobId)).length
    = (failedPages ((db.pagesOf jobId).filter fun other =>
      other.pageNumber ≠ page.pageNumber)).length + if page.status = .FAILED then 1 else 0
  := by
  have hperm := (db.perm_pagesOf_storePage (OcrJobService.pageRow jobId page)).filter fun other =>
    decide (other.status = .FAILED)
  have hlength := hperm.length_eq
  rw [List.filter_cons] at hlength
  apply hlength.trans
  have hstatus : (OcrJobService.pageRow jobId page).status = page.status := rfl
  by_cases hfailed : page.status = .FAILED
  · rw [if_pos (decide_eq_true (hstatus.trans hfailed)), if_pos hfailed]
    rfl
  · rw [if_neg (by rwa [decide_eq_true_eq, hstatus]), if_neg hfailed]
    rfl

namespace Write

variable {staleMs now : ℕ} {db : Database} {job : OcrJob}

/-- A write that fits keeps the counters in order. -/
theorem counted_data (w : Write) (hjob : db.ocrJobs.find w.jobId = some job)
    (hguard : (w.update staleMs now db).guard job = true) (h : job.Counted)
    (hfits : w.FitsProgress db) :
  ((w.update staleMs now db).data job).Counted
  := by
  cases w with
  | setTotalPages jobId documentId totalPages =>
      refine ⟨h.failed_le, ?_⟩
      rintro n ⟨⟩
      apply hfits job hjob (of_decide_eq_true hguard)
  | persistPage jobId page =>
      have hfailed := length_failedPages_storePage db jobId page
      have hle : (failedPages ((db.storePage (OcrJobService.pageRow jobId page)).pagesOf
          jobId)).length ≤ ((db.storePage (OcrJobService.pageRow jobId page)).pagesOf jobId).length :=
        List.length_filter_le _ _
      simp only [update, OcrJobService.countPagesUpdate]
      constructor
      · simp only
        cases htotal : job.totalPages with
        | none =>
            rw [Option.getD_none, Nat.min_self]
            apply hle
        | some n =>
            have hfit := hfits job hjob (of_decide_eq_true hguard) n htotal
            rw [Option.getD_some, Nat.le_min]
            exact ⟨hfailed ▸ hfit, hle⟩
      · intro n hn
        have hn : job.totalPages = some n := hn
        simp only [hn, Option.getD_some]
        apply Nat.min_le_left
  | finalize jobId =>
      refine ⟨List.length_filter_le _ _, ?_⟩
      intro n hn
      apply hfits job hjob (of_decide_eq_true hguard) n hn
  | _ => exact ⟨h.failed_le, h.processed_le⟩

/-- A write that leaves the counters within the page count has met a state that it fits. -/
theorem fitsProgress_of_bounded (w : Write)
    (h : ∀ job ∈ (w.perform staleMs now db).1.ocrJobs.rows, job.ProgressBounded) :
  w.FitsProgress db
  := by
  have hafter : ∀ job, db.ocrJobs.find w.jobId = some job →
      (w.update staleMs now db).guard job = true →
        ((w.update staleMs now db).data job).ProgressBounded := by
    intro job hjob hguard
    apply h
    apply Table.mem_of_find
    rw [find_perform, if_pos rfl, hjob, Option.map_some, Update.apply_of_guard _ hguard]
  cases w with
  | setTotalPages jobId documentId totalPages =>
      intro job hjob hstatus
      apply (hafter job hjob (decide_eq_true hstatus) totalPages rfl).1
  | persistPage jobId page =>
      intro job hjob hstatus n hn
      have hbounded := hafter job hjob (decide_eq_true hstatus) n hn
      rw [← length_failedPages_storePage]
      apply Nat.le_trans hbounded.2 hbounded.1
  | finalize jobId =>
      intro job hjob hstatus n hn
      apply (hafter job hjob (decide_eq_true hstatus) n hn).1
  | _ => trivial

end Write

namespace OcrWorker

variable {config : OcrConfig} {unicode : Unicode}

/-- What the transition writes fits the state it meets. -/
def FitsProgress (config : OcrConfig) (unicode : Unicode) (t : Transition State Label) : Prop :=
  ∀ w ∈ t.label.write config unicode t.source, w.FitsProgress t.source.db

instance (t : Transition State Label) : Decidable (FitsProgress config unicode t) := by
  unfold FitsProgress
  infer_instance

/-- The counters of every job are in order. -/
def AllCounted (s : State) : Prop :=
  ∀ job ∈ s.db.ocrJobs.rows, job.Counted

theorem AllCounted.step {t : Transition State Label} (h : AllCounted t.source)
    (hfits : FitsProgress config unicode t)
    (hstep : step config unicode t.source t.label = some t.target) :
  AllCounted t.target
  := by
  intro job' hjob'
  rcases row_of_step hstep hjob' with ⟨job, hjob, rfl⟩ | ⟨_, _, _, _, _, rfl⟩
  · unfold Label.applied
    split
    · rename_i w hw
      split
      · rename_i hid
        unfold Update.apply
        split
        · rename_i hguard
          apply w.counted_data (hid ▸ Table.mem_rows_iff.mp hjob) hguard (h job hjob) (hfits w hw)
        · apply h job hjob
      · apply h job hjob
    · apply h job hjob
  · constructor
    · apply Nat.le_refl
    · rintro n ⟨⟩

/-- In a run the counters of all jobs are within their page counts in every state exactly when every
write fits the state it meets. -/
theorem progress_bounded_iff {s s' : State} {ts : List (Transition State Label)}
    (hrun : (system config unicode).Run s ts s') (hinit : (system config unicode).init s) :
  (∀ t ∈ ts, ∀ job ∈ t.target.db.ocrJobs.rows, job.ProgressBounded)
    ↔ ∀ t ∈ ts, FitsProgress config unicode t
  := by
  constructor
  · intro hbounded t ht w hw
    rcases database_of_step (hrun.step_of_mem ht) with ⟨w', hw', hdb⟩ | ⟨hnone, -⟩
    · obtain rfl := Option.some.inj (hw.symm.trans hw')
      apply w.fitsProgress_of_bounded
      rw [← hdb]
      apply hbounded t ht
    · rw [hnone] at hw
      cases hw
  · intro hfits t ht job hjob
    have hcounted : AllCounted t.target := by
      apply hrun.invariant_target AllCounted _ _ ht
      · intro job hjob
        rw [hinit.1] at hjob
        cases hjob
      · intro t' ht' hstep h
        apply h.step (hfits t' ht') hstep
    apply (hcounted job hjob).progressBounded

/-- The interrupted job keeps its counters within its two pages. -/
theorem progress_bounded_of_interruptedJob :
  ∃ ts s', (system sampleConfig asciiUnicode).Run sampleState ts s'
    ∧ (∃ job ∈ s'.db.ocrJobs.find 1, (job.processedPages, job.totalPages) = (2, some 2))
    ∧ ∀ t ∈ ts, ∀ job ∈ t.target.db.ocrJobs.rows, job.ProgressBounded
  := by
  have hsome : ((system sampleConfig asciiUnicode).execute
      (fun t => decide (FitsProgress sampleConfig asciiUnicode t)) sampleState interruptedJob).any
        (fun s => (s.db.ocrJobs.find 1).any fun job =>
          decide ((job.processedPages, job.totalPages) = (2, some 2))) = true := by
    decide +kernel
  obtain ⟨s', hs, hend⟩ := (Option.any_eq_true _ _).mp hsome
  obtain ⟨ts, hrun, hts⟩ := TransitionSystem.run_of_execute hs
  refine ⟨ts, s', hrun, by simpa [Option.any_eq_true] using hend, ?_⟩
  apply (progress_bounded_iff hrun ⟨rfl, rfl, rfl, rfl⟩).mpr
  intro t ht
  exact of_decide_eq_true (hts t ht)

/-- A PDF of one page. -/
def shorterProbe : FileProbe where
  format := some .pdf
  dimensions := none
  info := .ok ⟨1, []⟩

/-- The first attempt stores both pages of the file and dies.  The second finds a file of one page,
and nothing left to do. -/
def shrinkingFile : List Label :=
  [.createJob 1 7 1 (js "eng") 0, .deliver 1 1] ++ sampleClaim 1 0 ++ sampleInspection 1
    ++ [.process 1 (.extract sampleTools), .process 1 .advance, .process 1 (.extract sampleTools),
      .process 1 .advance, .process 1 .die, .tick 120001, .reconcile 1 120001,
      .reconcileNext 1 120001, .deliver 2 1]
    ++ sampleClaim 2 120001
    ++ [.process 2 .advance, .process 2 (.download (.object (some 500) [500] none)),
      .process 2 (.inspect shorterProbe), .process 2 .advance, .process 2 .advance,
      .process 2 (.extract sampleTools), .process 2 .advance]

/-- The job ends COMPLETED with two of one page processed. -/
theorem processed_exceeds_total :
  ∃ ts s', (system sampleConfig asciiUnicode).init sampleState
    ∧ (system sampleConfig asciiUnicode).Run sampleState ts s'
    ∧ (∃ job ∈ s'.db.ocrJobs.find 1,
      (job.status, job.processedPages, job.totalPages) = (.COMPLETED, 2, some 1))
    ∧ ¬∀ job ∈ s'.db.ocrJobs.rows, job.ProgressBounded
  := by
  have hsome : ((system sampleConfig asciiUnicode).execute (fun _ => true) sampleState
      shrinkingFile).any (fun s => (s.db.ocrJobs.find 1).any fun job =>
        decide ((job.status, job.processedPages, job.totalPages) = (.COMPLETED, 2, some 1)))
          = true := by
    decide +kernel
  obtain ⟨s', hs, hend⟩ := (Option.any_eq_true _ _).mp hsome
  obtain ⟨job, hjob, hcolumns⟩ := (Option.any_eq_true _ _).mp hend
  have hcolumns := of_decide_eq_true hcolumns
  obtain ⟨ts, hrun, -⟩ := TransitionSystem.run_of_execute hs
  refine ⟨ts, s', ⟨rfl, rfl, rfl, rfl⟩, hrun, ⟨job, hjob, hcolumns⟩, ?_⟩
  intro hall
  obtain ⟨-, hprocessed, htotal⟩ : job.status = .COMPLETED ∧ job.processedPages = 2
      ∧ job.totalPages = some 1 := by
    simpa using hcolumns
  have hle := (hall job (Table.mem_of_find hjob) 1 htotal).1
  omega

end OcrWorker

end DocuAI
