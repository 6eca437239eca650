import DocuAI.Ocr.Ownership

/-!
# Finished jobs have all their pages

`finalize` never compares the pages it finds with the page count.  That a job it ends has all of
them rests on the pages being an initial segment at all times: a worker resumes after the last
stored page, yields the pages in order, and is the only one to do so (`Complete`).
-/

namespace DocuAI

namespace OcrWorker

variable {config : OcrConfig} {unicode : Unicode}

/-! ### The invariant -/

/-- The numbers of the stored pages of a job, in the order of their creation. -/
def pageNumbers (db : Database) (jobId : ℕ) : List ℕ :=
  (db.pagesOf jobId).map OcrPage.pageNumber

/-- The statuses of a job that ended with the text of at least one page. -/
def HasResults (status : OcrJobStatus) : Prop :=
  status = .COMPLETED ∨ status = .PARTIAL

/-- The job has not ended with results. -/
def Unfinished (db : Database) (jobId : ℕ) : Prop :=
  ∀ job ∈ db.ocrJobs.find jobId, ¬ HasResults job.status

/-- While the job is PROCESSING its page count is known. -/
def CountKnown (n : ℕ) (db : Database) (jobId : ℕ) : Prop :=
  ∀ job ∈ db.ocrJobs.find jobId, job.status = .PROCESSING → job.totalPages = some n

/-- What the phase of the one process that holds a job of `n` pages says about the stored pages.
A process that has yet to write pages holds an unfinished job. -/
def Phase.Sound (n : ℕ) (db : Database) (jobId : ℕ) : Phase → Prop
  | .concluding _ | .failing _ _ => True
  | .measured _ _ inspected => Unfinished db jobId ∧ inspected.totalPages = n
  | .resuming _ inspected =>
      Unfinished db jobId ∧ CountKnown n db jobId ∧ inspected.totalPages = n
  | .extracting _ extraction =>
      Unfinished db jobId ∧ CountKnown n db jobId ∧ extraction.totalPages = n
        ∧ extraction.nextPage = (db.pagesOf jobId).length + 1
  | .yielded _ page rest =>
      Unfinished db jobId ∧ CountKnown n db jobId ∧ rest.totalPages = n
        ∧ page.pageNumber = (db.pagesOf jobId).length + 1 ∧ page.pageNumber ≤ n
        ∧ rest.nextPage = page.pageNumber + 1
  | .finalizing _ =>
      Unfinished db jobId ∧ CountKnown n db jobId ∧ (db.pagesOf jobId).length = n
  | _ => Unfinished db jobId

/-- The row of a job with results agrees with its `n` stored pages. -/
structure Finished (n : ℕ) (pages : List OcrPage) (job : OcrJob) : Prop where
  length : pages.length = n
  totalPages : job.totalPages = some n
  processedPages : job.processedPages = n
  failedPages : job.failedPages = (failedPages pages).length
  status : job.status = finalStatus pages
  extractionMethod : job.extractionMethod = extractionMethodOf pages

/-- The invariant of a job of `n` pages. -/
structure Complete (n jobId : ℕ) (s : State) : Prop where
  /-- The stored pages are the first ones. -/
  numbers : pageNumbers s.db jobId = List.range' 1 (s.db.pagesOf jobId).length
  length_le : (s.db.pagesOf jobId).length ≤ n
  sound : ∀ q ∈ s.processes.rows, q.jobId = jobId → q.phase.holds = true →
    q.phase.Sound n s.db jobId
  finished : ∀ job ∈ s.db.ocrJobs.find jobId, HasResults job.status →
    Finished n (s.db.pagesOf jobId) job

/-- The process measured `n` pages, if it has just measured its file. -/
def Phase.measures (n : ℕ) : Phase → Bool
  | .measured _ _ inspected => inspected.totalPages = n
  | _ => true

/-- Every inspection of the file of a job reports `n` pages. -/
def InspectionsReport (n jobId : ℕ) (s : State) : Prop :=
  ∀ q ∈ s.processes.rows, q.jobId = jobId → q.phase.measures n = true

instance (n jobId : ℕ) (s : State) : Decidable (InspectionsReport n jobId s) :=
  inferInstanceAs (Decidable (∀ q ∈ s.processes.rows, q.jobId = jobId → q.phase.measures n = true))

/-! ### Changes that do not matter -/

/-- The database changed without touching the pages of the job, and without ending the job with
results, starting it, or changing its page count while it is PROCESSING. -/
structure Kept (db db' : Database) (jobId : ℕ) : Prop where
  pages : db'.pagesOf jobId = db.pagesOf jobId
  job : ∀ job' ∈ db'.ocrJobs.find jobId, job' ∈ db.ocrJobs.find jobId
    ∨ ¬ HasResults job'.status
      ∧ (job'.status = .PROCESSING →
        ∃ job ∈ db.ocrJobs.find jobId, job.status = .PROCESSING ∧ job'.totalPages = job.totalPages)

theorem Kept.unfinished {db db' : Database} {jobId : ℕ} (h : Kept db db' jobId)
    (hopen : Unfinished db jobId) :
  Unfinished db' jobId
  := by
  intro job' hjob'
  rcases h.job job' hjob' with hjob | ⟨hresults, -⟩
  · exact hopen job' hjob
  · exact hresults

theorem Kept.countKnown {n : ℕ} {db db' : Database} {jobId : ℕ} (h : Kept db db' jobId)
    (hknown : CountKnown n db jobId) :
  CountKnown n db' jobId
  := by
  intro job' hjob' hstatus
  rcases h.job job' hjob' with hjob | ⟨-, hprocessing⟩
  · exact hknown job' hjob hstatus
  · obtain ⟨job, hjob, hold, htotal⟩ := hprocessing hstatus
    rw [htotal]
    exact hknown job hjob hold

theorem Kept.sound {n : ℕ} {db db' : Database} {jobId : ℕ} (h : Kept db db' jobId)
    {phase : Phase} (hsound : phase.Sound n db jobId) :
  phase.Sound n db' jobId
  := by
  have hopen : Unfinished db jobId → Unfinished db' jobId := h.unfinished
  have hknown : CountKnown n db jobId → CountKnown n db' jobId := h.countKnown
  cases phase with
  | concluding job => trivial
  | failing job error => trivial
  | measured job document inspected => exact ⟨hopen hsound.1, hsound.2⟩
  | resuming job inspected => exact ⟨hopen hsound.1, hknown hsound.2.1, hsound.2.2⟩
  | extracting job extraction =>
      simp only [Phase.Sound, h.pages]
      exact ⟨hopen hsound.1, hknown hsound.2.1, hsound.2.2⟩
  | yielded job page rest =>
      simp only [Phase.Sound, h.pages]
      exact ⟨hopen hsound.1, hknown hsound.2.1, hsound.2.2⟩
  | finalizing job =>
      simp only [Phase.Sound, h.pages]
      exact ⟨hopen hsound.1, hknown hsound.2.1, hsound.2.2⟩
  | _ => exact hopen hsound

theorem Kept.finished {n : ℕ} {db db' : Database} {jobId : ℕ} (h : Kept db db' jobId)
    (hfinished : ∀ job ∈ db.ocrJobs.find jobId, HasResults job.status →
      Finished n (db.pagesOf jobId) job) :
  ∀ job ∈ db'.ocrJobs.find jobId, HasResults job.status → Finished n (db'.pagesOf jobId) job
  := by
  intro job' hjob' hresults
  rw [h.pages]
  rcases h.job job' hjob' with hjob | ⟨hnot, -⟩
  · exact hfinished job' hjob hresults
  · exact absurd hresults hnot

/-- A change that does not matter keeps the invariant, when every holder in the state after it is
sound. -/
theorem Complete.kept {n jobId : ℕ} {s s' : State} (h : Complete n jobId s)
    (hkept : Kept s.db s'.db jobId)
    (hsound : ∀ q ∈ s'.processes.rows, q.jobId = jobId → q.phase.holds = true →
      q.phase.Sound n s'.db jobId) :
  Complete n jobId s'
  := by
  constructor
  · rw [pageNumbers, hkept.pages]
    exact h.numbers
  · rw [hkept.pages]
    exact h.length_le
  · exact hsound
  · exact hkept.finished h.finished

/-- A write that does not concern the job does not matter. -/
theorem kept_perform_of_ne {w : Write} {staleMs now jobId : ℕ} {db : Database}
    (h : w.jobId ≠ jobId) :
  Kept db (w.perform staleMs now db).1 jobId
  := by
  constructor
  · apply Write.pagesOf_perform
    rintro page rfl
    exact h rfl
  · intro job' hjob'
    rw [Write.find_perform, if_neg (Ne.symm h)] at hjob'
    exact .inl hjob'

/-- A write that is refused does not matter, if it stores no page. -/
theorem kept_of_refused {w : Write} {staleMs now : ℕ} {db : Database}
    (hreply : (w.perform staleMs now db).2 = false)
    (hpersist : ∀ page, w ≠ .persistPage w.jobId page) :
  Kept db (w.perform staleMs now db).1 w.jobId
  := by
  constructor
  · exact Write.pagesOf_perform hpersist
  · intro job' hjob'
    rw [(Write.find_of_not_reply hreply).2] at hjob'
    exact .inl hjob'

/-- A write that neither gives the job results, nor starts it, nor changes its page count does not
matter. -/
theorem kept_perform {w : Write} {staleMs now : ℕ} {db : Database}
    (hw : ∀ job, (w.update staleMs now db).guard job = true →
      ¬ HasResults ((w.update staleMs now db).data job).status
      ∧ (((w.update staleMs now db).data job).status = .PROCESSING →
        job.status = .PROCESSING
          ∧ ((w.update staleMs now db).data job).totalPages = job.totalPages))
    (hpersist : ∀ page, w ≠ .persistPage w.jobId page) :
  Kept db (w.perform staleMs now db).1 w.jobId
  := by
  cases hreply : (w.perform staleMs now db).2 with
  | false => exact kept_of_refused hreply hpersist
  | true =>
      constructor
      · exact Write.pagesOf_perform hpersist
      · intro job' hjob'
        obtain ⟨job, hjob, hguard, hafter⟩ := Write.find_of_reply hreply
        rw [hafter] at hjob'
        obtain rfl := Option.some.inj hjob'
        obtain ⟨hresults, hprocessing⟩ := hw job hguard
        exact .inr ⟨hresults, fun hstatus => ⟨job, hjob, hprocessing hstatus⟩⟩

theorem kept_heartbeat {db : Database} {staleMs now jobId : ℕ} :
  Kept db ((Write.heartbeat jobId).perform staleMs now db).1 jobId
  := by
  apply kept_perform
  · intro job hguard
    have hstatus : job.status = .PROCESSING := of_decide_eq_true hguard
    exact ⟨by simp [Write.update, OcrJobService.heartbeatUpdate, HasResults, hstatus],
      fun _ => ⟨hstatus, rfl⟩⟩
  · rintro page ⟨⟩

theorem kept_fail {db : Database} {staleMs now jobId : ℕ} {errorCode : OcrErrorCode}
    {errorMessage : JsString} :
  Kept db ((Write.fail jobId errorCode errorMessage).perform staleMs now db).1 jobId
  := by
  apply kept_perform
  · intro job _
    simp [Write.update, OcrJobService.endUpdate, HasResults]
  · rintro page ⟨⟩

theorem kept_cancel {db : Database} {staleMs now jobId : ℕ} {errorCode : OcrErrorCode}
    {errorMessage : JsString} :
  Kept db ((Write.cancel jobId errorCode errorMessage).perform staleMs now db).1 jobId
  := by
  apply kept_perform
  · intro job _
    simp [Write.update, OcrJobService.endUpdate, HasResults]
  · rintro page ⟨⟩

theorem kept_requeue {db : Database} {staleMs now jobId : ℕ} {errorCode : OcrErrorCode}
    {errorMessage : JsString} :
  Kept db ((Write.requeue jobId errorCode errorMessage).perform staleMs now db).1 jobId
  := by
  apply kept_perform
  · intro job _
    simp [Write.update, OcrJobService.requeueUpdate, HasResults]
  · rintro page ⟨⟩

theorem kept_recover {db : Database} {staleMs now jobId readAt : ℕ} :
  Kept db ((Write.recover jobId readAt).perform staleMs now db).1 jobId
  := by
  apply kept_perform
  · intro job _
    simp [Write.update, OcrJobService.recoverUpdate, HasResults]
  · rintro page ⟨⟩

/-! ### Steps that send nothing -/

theorem foldr_max (l : List ℕ) (m : ℕ) :
  l.foldr max m = max (l.foldr max 0) m
  := by
  induction l with
  | nil => simp
  | cons x l ih => rw [List.foldr_cons, List.foldr_cons, ih, max_assoc]

theorem foldr_max_range' (k : ℕ) :
  (List.range' 1 k).foldr max 0 = k
  := by
  induction k with
  | zero => rfl
  | succ k ih =>
      rw [List.range'_1_concat, List.foldr_append, List.foldr_cons, List.foldr_nil, foldr_max, ih]
      omega

/-- A worker resumes after the last stored page. -/
theorem startPage_extractionInput {db : Database} {now : ℕ} {q : Process} {job : OcrJob}
    {inspected : InspectedFile}
    (hnumbers : pageNumbers db q.jobId = List.range' 1 (db.pagesOf q.jobId).length) :
  (q.extractionInput config db now job inspected).startPage = (db.pagesOf q.jobId).length + 1
  := by
  have h : (OcrJobService.persistedProgress db q.jobId).1 = (db.pagesOf q.jobId).length := by
    change (pageNumbers db q.jobId).foldr max 0 = _
    rw [hnumbers, foldr_max_range']
  simp only [Process.extractionInput, h]

/-- The first decision of `run` finds an unfinished job sound. -/
theorem sound_load {n : ℕ} {db : Database} {jobId : ℕ} {job : OcrJob}
    (hopen : Unfinished db jobId) :
  (Process.load config db job).Sound n db jobId
  := by
  apply Process.load_cases (motive := fun phase => phase.Sound n db jobId)
  · exact hopen
  · trivial
  · exact fun _ => hopen

/-- What the generator yields next fits the stored pages. -/
theorem sound_extract {n : ℕ} {db : Database} {now jobId : ℕ} {tools : Tools} {job : OcrJob}
    {extraction : Extraction} (hle : (db.pagesOf jobId).length ≤ n)
    (hsound : (Phase.extracting job extraction).Sound n db jobId) :
  (∀ page rest, extraction.next config unicode tools now = .page page rest →
    (Phase.yielded job page rest).Sound n db jobId)
  ∧ (extraction.next config unicode tools now = .done →
    (Phase.finalizing job).Sound n db jobId)
  := by
  obtain ⟨hopen, hknown, htotal, hnext⟩ := hsound
  constructor
  · intro page rest hyield
    obtain ⟨hnumber, hlast, hrest, hrestTotal⟩ := Extraction.next_page (by omega) hyield
    exact ⟨hopen, hknown, by omega, by omega, by omega, by omega⟩
  · intro hdone
    have hlast := Extraction.next_done hdone
    exact ⟨hopen, hknown, by omega⟩

/-- A step of a holder that sends nothing keeps it sound. -/
theorem sound_quiet {n : ℕ} {db : Database} {now : ℕ} {q : Process} {a : Action}
    {next : Bool → Progress} (hact : q.act config unicode db now a = some ⟨none, next⟩)
    (hsound : q.phase.Sound n db q.jobId)
    (hnumbers : pageNumbers db q.jobId = List.range' 1 (db.pagesOf q.jobId).length)
    (hle : (db.pagesOf q.jobId).length ≤ n) (hmeasures : (next false).phase.measures n = true)
    (hnext : (next false).phase.holds = true) :
  (next false).phase.Sound n db q.jobId
  := by
  have hmoves := Process.moves_of_act hact
  clear hact
  cases hmoves with
  | finds hphase | ignores hphase | concludes hphase | rejects | dies => cases hnext
  | exhausts hphase | starts hphase | enters hphase | downloads hphase =>
      rw [hphase] at hsound
      exact hsound
  | loads hphase =>
      rw [hphase] at hsound
      exact sound_load hsound
  | resumes hphase =>
      rw [hphase] at hsound
      obtain ⟨hopen, hknown, htotal⟩ := hsound
      exact ⟨hopen, hknown, htotal, startPage_extractionInput hnumbers⟩
  | inspects hphase =>
      rw [hphase] at hsound
      exact ⟨hsound, of_decide_eq_true hmeasures⟩
  | yields hphase hyield =>
      rw [hphase] at hsound
      exact (sound_extract hle hsound).1 _ _ hyield
  | ends hphase hyield =>
      rw [hphase] at hsound
      exact (sound_extract hle hsound).2 hyield
  | downloadFails | inspectFails | extractFails | throws => trivial

/-! ### Steps that send a write -/

section

variable {n : ℕ} {s : State} {q : Process}

/-- The processes after a step. -/
theorem mem_processes_apply {w : Write} {next : Bool → Progress} {r : Process} :
  r ∈ (s.apply config q ⟨some w, next⟩).processes.rows
    ↔ r = { q with toProgress := next (w.perform config.staleJobMs s.now s.db).2 }
      ∨ r ∈ s.processes.rows ∧ r.id ≠ q.id
  := Table.mem_rows_put_iff

/-- A holder is the only one. -/
theorem others_idle (hvalid : Lease.Valid (leaseOf s q.jobId)) (hq : q ∈ s.processes.rows)
    (hholds : q.phase.holds = true) :
  ∀ r ∈ s.processes.rows, r.id ≠ q.id → r.jobId = q.jobId → r.phase.holds = false
  := by
  intro r hr hne hjob
  by_contra h
  apply hne
  rw [eq_of_valid hvalid hr hq hjob rfl (Bool.not_eq_false _ ▸ h) hholds]

/-- A write that does not matter keeps the invariant, when its process stays sound. -/
theorem complete_of_kept {w : Write} {next : Bool → Progress} (h : Complete n q.jobId s)
    (hkept : Kept s.db (w.perform config.staleJobMs s.now s.db).1 q.jobId)
    (hsound : (next (w.perform config.staleJobMs s.now s.db).2).phase.holds = true →
      (next (w.perform config.staleJobMs s.now s.db).2).phase.Sound n
        (w.perform config.staleJobMs s.now s.db).1 q.jobId) :
  Complete n q.jobId (s.apply config q ⟨some w, next⟩)
  := by
  apply h.kept hkept
  intro r hr hjob hholds
  rcases mem_processes_apply.mp hr with rfl | ⟨hr, -⟩
  · exact hsound hholds
  · exact hkept.sound (h.sound r hr hjob hholds)

/-- A step of the only holder keeps the invariant, when what it leaves behind fits together. -/
theorem complete_of_sole {w : Write} {next : Bool → Progress}
    (hothers : ∀ r ∈ s.processes.rows, r.id ≠ q.id → r.jobId = q.jobId → r.phase.holds = false)
    (hnumbers : pageNumbers (w.perform config.staleJobMs s.now s.db).1 q.jobId
      = List.range' 1 ((w.perform config.staleJobMs s.now s.db).1.pagesOf q.jobId).length)
    (hle : ((w.perform config.staleJobMs s.now s.db).1.pagesOf q.jobId).length ≤ n)
    (hsound : (next (w.perform config.staleJobMs s.now s.db).2).phase.Sound n
      (w.perform config.staleJobMs s.now s.db).1 q.jobId)
    (hfinished : ∀ job ∈ (w.perform config.staleJobMs s.now s.db).1.ocrJobs.find q.jobId,
      HasResults job.status →
        Finished n ((w.perform config.staleJobMs s.now s.db).1.pagesOf q.jobId) job) :
  Complete n q.jobId (s.apply config q ⟨some w, next⟩)
  := by
  constructor
  · exact hnumbers
  · exact hle
  · intro r hr hjob hholds
    rcases mem_processes_apply.mp hr with rfl | ⟨hr, hne⟩
    · exact hsound
    · rw [hothers r hr hne hjob] at hholds
      cases hholds
  · exact hfinished

theorem complete_claim (h : Complete n q.jobId s) {job : OcrJob} {readAt attempt : ℕ}
    (hvalid : Lease.Valid (leaseOf (s.apply config q ⟨some (.claim q.jobId readAt), fun claimed =>
      if claimed then ⟨.claimed job, q.timer, attempt, s.now⟩ else q.goTo .returned⟩) q.jobId)) :
  Complete n q.jobId (s.apply config q ⟨some (.claim q.jobId readAt), fun claimed =>
    if claimed then ⟨.claimed job, q.timer, attempt, s.now⟩ else q.goTo .returned⟩)
  := by
  cases hreply : ((Write.claim q.jobId readAt).perform config.staleJobMs s.now s.db).2 with
  | false =>
      apply complete_of_kept h (kept_of_refused hreply (by rintro page ⟨⟩))
      rw [hreply]
      intro hholds
      cases hholds
  | true =>
      have hpages : ((Write.claim q.jobId readAt).perform config.staleJobMs s.now s.db).1.pagesOf
          q.jobId = s.db.pagesOf q.jobId := Write.pagesOf_perform (by rintro page ⟨⟩)
      obtain ⟨row, -, -, hafter⟩ := Write.find_of_reply hreply
      have hopen : Unfinished
          ((Write.claim q.jobId readAt).perform config.staleJobMs s.now s.db).1 q.jobId := by
        intro row' hrow'
        obtain rfl := Option.some.inj (hafter.symm.trans hrow')
        simp [HasResults, Write.update, OcrJobService.claimUpdate]
      apply complete_of_sole
      · -- the lease is valid with the process as a holder, so that there is no other
        intro r hr hne hjob
        by_contra hholds
        apply hne
        have heq := eq_of_valid hvalid (mem_processes_apply.mpr (.inr ⟨hr, hne⟩))
          (mem_processes_apply.mpr (.inl rfl)) hjob rfl (Bool.not_eq_false _ ▸ hholds)
          (by rw [hreply]; rfl)
        rw [heq]
      · rw [pageNumbers, hpages]
        exact h.numbers
      · rw [hpages]
        exact h.length_le
      · rw [hreply]
        exact hopen
      · intro row' hrow' hresults
        exact absurd hresults (hopen row' hrow')

theorem complete_measure (h : Complete n q.jobId s) (hq : q ∈ s.processes.rows)
    (hvalid : Lease.Valid (leaseOf s q.jobId)) {job : OcrJob} {document : Document}
    {inspected : InspectedFile} (hphase : q.phase = .measured job document inspected) :
  Complete n q.jobId (s.apply config q
    ⟨some (.setTotalPages q.jobId document.id inspected.totalPages),
      q.renewTo s.now (.resuming job inspected)⟩)
  := by
  have hholds : q.phase.holds = true := by
    rw [hphase]
    rfl
  have hsound := h.sound q hq rfl hholds
  rw [hphase] at hsound
  obtain ⟨hopen, htotal⟩ := hsound
  have hpages : ((Write.setTotalPages q.jobId document.id inspected.totalPages).perform
      config.staleJobMs s.now s.db).1.pagesOf q.jobId = s.db.pagesOf q.jobId :=
    Write.pagesOf_perform (by rintro page ⟨⟩)
  have hafter : Unfinished ((Write.setTotalPages q.jobId document.id inspected.totalPages).perform
        config.staleJobMs s.now s.db).1 q.jobId
      ∧ CountKnown n ((Write.setTotalPages q.jobId document.id inspected.totalPages).perform
        config.staleJobMs s.now s.db).1 q.jobId := by
    cases hreply : ((Write.setTotalPages q.jobId document.id inspected.totalPages).perform
      config.staleJobMs s.now s.db).2 with
    | false =>
        obtain ⟨hguard, hfind⟩ := Write.find_of_not_reply hreply
        constructor
        · intro row hrow
          exact hopen row (hfind.symm.trans hrow)
        · intro row hrow hstatus
          have hrefused := hguard row (hfind.symm.trans hrow)
          simp [Write.update, OcrJobService.setTotalPagesUpdate, hstatus] at hrefused
    | true =>
        obtain ⟨row, hrow, hguard, hfind⟩ := Write.find_of_reply hreply
        constructor
        · intro row' hrow'
          obtain rfl := Option.some.inj (hfind.symm.trans hrow')
          exact hopen row hrow
        · intro row' hrow' _
          obtain rfl := Option.some.inj (hfind.symm.trans hrow')
          rw [← htotal]
          rfl
  apply complete_of_sole (others_idle hvalid hq hholds)
  · rw [pageNumbers, hpages]
    exact h.numbers
  · rw [hpages]
    exact h.length_le
  · exact ⟨hafter.1, hafter.2, htotal⟩
  · intro row hrow hresults
    exact absurd hresults (hafter.1 row hrow)

theorem complete_persist (h : Complete n q.jobId s) (hq : q ∈ s.processes.rows)
    (hvalid : Lease.Valid (leaseOf s q.jobId)) {job : OcrJob} {page : ExtractedPage}
    {rest : Extraction} (hphase : q.phase = .yielded job page rest) :
  Complete n q.jobId (s.apply config q
    ⟨some (.persistPage q.jobId page), q.renewTo s.now (.extracting job rest)⟩)
  := by
  have hholds : q.phase.holds = true := by
    rw [hphase]
    rfl
  have hsound := h.sound q hq rfl hholds
  rw [hphase] at hsound
  obtain ⟨hopen, hknown, htotal, hnumber, hlast, hrest⟩ := hsound
  -- no page has the next number yet
  have hnew : s.db.ocrPages.find (OcrJobService.pageRow q.jobId page).key = none := by
    cases hfind : s.db.ocrPages.find (OcrJobService.pageRow q.jobId page).key with
    | none => rfl
    | some stored =>
        obtain ⟨hmem, hstored⟩ := Database.find_page_iff.mp hfind
        have hin : stored.pageNumber ∈ pageNumbers s.db q.jobId := List.mem_map_of_mem hmem
        have hstored : stored.pageNumber = (s.db.pagesOf q.jobId).length + 1 :=
          hstored.trans hnumber
        rw [h.numbers, List.mem_range'_1, hstored] at hin
        omega
  have hpages : ((Write.persistPage q.jobId page).perform config.staleJobMs s.now s.db).1.pagesOf
      q.jobId = s.db.pagesOf q.jobId ++ [OcrJobService.pageRow q.jobId page] :=
    Database.pagesOf_storePage_of_find_none hnew
  have hlength : (((Write.persistPage q.jobId page).perform config.staleJobMs s.now
      s.db).1.pagesOf q.jobId).length = (s.db.pagesOf q.jobId).length + 1 := by
    rw [hpages, List.length_append, List.length_singleton]
  have hrow : ∀ row' ∈ ((Write.persistPage q.jobId page).perform config.staleJobMs s.now
      s.db).1.ocrJobs.find q.jobId, ∃ row ∈ s.db.ocrJobs.find q.jobId,
        row'.status = row.status ∧ row'.totalPages = row.totalPages := by
    intro row' hrow'
    simp only [Write.find_perform, Write.jobId, if_true] at hrow'
    obtain ⟨row, hrow, rfl⟩ := Option.map_eq_some_iff.mp hrow'
    use row, hrow
    unfold Update.apply
    split
    · exact ⟨rfl, rfl⟩
    · exact ⟨rfl, rfl⟩
  have hopen' : Unfinished
      ((Write.persistPage q.jobId page).perform config.staleJobMs s.now s.db).1 q.jobId := by
    intro row' hrow'
    obtain ⟨row, hmem, hstatus, -⟩ := hrow row' hrow'
    rw [hstatus]
    exact hopen row hmem
  have hknown' : CountKnown n
      ((Write.persistPage q.jobId page).perform config.staleJobMs s.now s.db).1 q.jobId := by
    intro row' hrow' hprocessing
    obtain ⟨row, hmem, hstatus, hcount⟩ := hrow row' hrow'
    rw [hcount]
    exact hknown row hmem (hstatus ▸ hprocessing)
  apply complete_of_sole (others_idle hvalid hq hholds)
  · rw [hlength, pageNumbers, hpages, List.map_append, ← pageNumbers, h.numbers,
      List.range'_1_concat]
    simp only [List.map_cons, List.map_nil, OcrJobService.pageRow, hnumber]
    rw [Nat.add_comm]
  · rw [hlength]
    omega
  · refine ⟨hopen', hknown', htotal, ?_⟩
    rw [hlength]
    omega
  · intro row' hrow' hresults
    exact absurd hresults (hopen' row' hrow')

theorem complete_finalize (h : Complete n q.jobId s) (hq : q ∈ s.processes.rows)
    (hvalid : Lease.Valid (leaseOf s q.jobId)) {job : OcrJob}
    (hphase : q.phase = .finalizing job) :
  Complete n q.jobId (s.apply config q
    ⟨some (.finalize q.jobId), fun _ => q.goTo (.concluding job)⟩)
  := by
  have hholds : q.phase.holds = true := by
    rw [hphase]
    rfl
  have hsound := h.sound q hq rfl hholds
  rw [hphase] at hsound
  obtain ⟨hopen, hknown, hlength⟩ := hsound
  have hpages : ((Write.finalize q.jobId).perform config.staleJobMs s.now s.db).1.pagesOf q.jobId
      = s.db.pagesOf q.jobId := Write.pagesOf_perform (by rintro page ⟨⟩)
  apply complete_of_sole (others_idle hvalid hq hholds)
  · rw [pageNumbers, hpages]
    exact h.numbers
  · rw [hpages]
    exact h.length_le
  · trivial
  · intro row' hrow' hresults
    cases hreply : ((Write.finalize q.jobId).perform config.staleJobMs s.now s.db).2 with
    | false =>
        have hrow := (Write.find_of_not_reply hreply).2.symm.trans hrow'
        exact absurd hresults (hopen row' hrow)
    | true =>
        obtain ⟨row, hrow, hguard, hfind⟩ := Write.find_of_reply hreply
        obtain rfl := Option.some.inj (hfind.symm.trans hrow')
        rw [hpages]
        exact
          { length := hlength
            totalPages := hknown row hrow (of_decide_eq_true hguard)
            processedPages := hlength
            failedPages := rfl
            status := rfl
            extractionMethod := rfl }

/-- Every step of a process keeps the invariant of its job. -/
theorem complete_apply {a : Action} {e : Effect} (h : Complete n q.jobId s)
    (hq : s.processes.find q.id = some q) (hact : q.act config unicode s.db s.now a = some e)
    (hvalid : Lease.Valid (leaseOf s q.jobId))
    (hvalid' : Lease.Valid (leaseOf (s.apply config q e) q.jobId))
    (hmeasures : InspectionsReport n q.jobId (s.apply config q e)) :
  Complete n q.jobId (s.apply config q e)
  := by
  have hmem := Table.mem_of_find hq
  cases Process.act_acts hact with
  | @quiet p hbeat hholds =>
      constructor
      · exact h.numbers
      · exact h.length_le
      · intro r hr hjob hrholds
        rcases Table.mem_rows_put_iff.mp hr with rfl | ⟨hr, -⟩
        · have hqholds := hholds hrholds
          apply sound_quiet hact (h.sound q hmem rfl hqholds) h.numbers h.length_le _ hrholds
          exact hmeasures _ (Table.mem_rows_put_iff.mpr (.inl rfl)) rfl
        · exact h.sound r hr hjob hrholds
      · exact h.finished
  | claim hphase hread => exact complete_claim h hvalid'
  | heartbeat =>
      apply complete_of_kept h kept_heartbeat
      intro hholds
      exact kept_heartbeat.sound (h.sound q hmem rfl hholds)
  | measure hphase => exact complete_measure h hmem hvalid hphase
  | persist hphase => exact complete_persist h hmem hvalid hphase
  | finalize hphase => exact complete_finalize h hmem hvalid hphase
  | cancel hphase =>
      apply complete_of_kept h kept_cancel
      intro _
      trivial
  | fail hholds =>
      apply complete_of_kept h kept_fail
      intro hreturned
      cases hreturned
  | requeue hholds =>
      apply complete_of_kept h kept_requeue
      intro hreturned
      cases hreturned

end

/-! ### Runs -/

/-- Every step of the system keeps the invariant of a job whose lease is valid. -/
theorem complete_step {n jobId : ℕ} {s s' : State} {a : Label}
    (hstep : step config unicode s a = some s') (h : Complete n jobId s)
    (hvalid : Lease.Valid (leaseOf s jobId)) (hvalid' : Lease.Valid (leaseOf s' jobId))
    (hmeasures : InspectionsReport n jobId s') :
  Complete n jobId s'
  := by
  have hquiet (db : Database) (reconcilers : Table Reconciler.id) (hkept : Kept s.db db jobId) :
      Complete n jobId { s with db, reconcilers } := by
    apply h.kept hkept
    intro q hq hjob hholds
    exact hkept.sound (h.sound q hq hjob hholds)
  cases moves_of_step hstep with
  | ticks | reconciles | aborts => exact ⟨h.numbers, h.length_le, h.sound, h.finished⟩
  | creates hcreate =>
      refine hquiet _ _ ⟨rfl, ?_⟩
      intro job' hjob'
      simp only [Table.find_create hcreate] at hjob'
      split at hjob'
      · obtain rfl := Option.some.inj hjob'
        simp [HasResults, OcrService.createdJob]
      · exact .inl hjob'
  | writes => exact hquiet _ _ ⟨rfl, fun job' hjob' => .inl hjob'⟩
  | delivers hcreate =>
      refine ⟨h.numbers, h.length_le, ?_, h.finished⟩
      intro q hq hjob hholds
      rw [Table.rows_of_create hcreate, List.mem_append, List.mem_singleton] at hq
      rcases hq with hq | rfl
      · exact h.sound q hq hjob hholds
      · cases hholds
  | @acts q action e hq hact =>
      by_cases hjob : q.jobId = jobId
      · subst hjob
        exact complete_apply h hq hact hvalid hvalid' hmeasures
      · have hkept : Kept s.db (s.apply config q e).db jobId := by
          obtain ⟨write, next⟩ := e
          cases write with
          | none => exact ⟨rfl, fun job' hjob' => .inl hjob'⟩
          | some w =>
              apply kept_perform_of_ne
              rw [(Process.act_acts hact).jobId_write]
              exact hjob
        apply h.kept hkept
        intro r hr hrjob hholds
        rw [processes_apply] at hr
        rcases Table.mem_rows_put_iff.mp hr with rfl | ⟨hr, -⟩
        · exact absurd hrjob hjob
        · exact hkept.sound (h.sound r hr hrjob hholds)
  | @treats r job remaining readAt =>
      refine hquiet _ _ ?_
      by_cases hjob : (Reconciler.write job readAt).jobId = jobId
      · subst hjob
        unfold Reconciler.write
        split
        · apply kept_fail
        · apply kept_recover
      · apply kept_perform_of_ne hjob

theorem complete_init {s : State} (hinit : (system config unicode).init s) (n jobId : ℕ) :
  Complete n jobId s
  := by
  obtain ⟨hjobs, hpages, hprocesses, -⟩ := hinit
  have hnone : s.db.pagesOf jobId = [] := by
    simp [Database.pagesOf, hpages]
  constructor
  · simp [pageNumbers, hnone]
  · simp [hnone]
  · simp [hprocesses]
  · simp [Table.find, hjobs]

/-- When silent workers have stopped and every inspection reports `n` pages, the stored pages of a
job are its first ones, and a job that ends COMPLETED or PARTIAL has all of them and says so. -/
theorem finished_job_has_all_pages {s₀ s : State} {ts : List (Transition State Label)}
    (hrun : (system config unicode).Run s₀ ts s) (hinit : (system config unicode).init s₀)
    {n jobId : ℕ} (hstopped : ∀ t ∈ ts, SilentWorkersStopped config jobId t.source)
    (hmeasures : ∀ t ∈ ts, InspectionsReport n jobId t.target) :
  (∃ k ≤ n, (s.db.pagesOf jobId).map OcrPage.pageNumber = List.range' 1 k)
  ∧ ∀ job ∈ s.db.ocrJobs.find jobId, job.status = .COMPLETED ∨ job.status = .PARTIAL →
    (s.db.pagesOf jobId).map OcrPage.pageNumber = List.range' 1 n
    ∧ job.totalPages = some n
    ∧ job.processedPages = n
    ∧ job.failedPages = (s.db.pagesOf jobId).countP (fun page => page.status = .FAILED)
    ∧ (job.status = .COMPLETED ↔ ∀ page ∈ s.db.pagesOf jobId, page.status ≠ .FAILED)
    ∧ (job.status = .PARTIAL ↔ (∃ page ∈ s.db.pagesOf jobId, page.status = .FAILED)
      ∧ ∃ page ∈ s.db.pagesOf jobId, page.status ≠ .FAILED)
    ∧ (job.extractionMethod = some .MIXED
      ↔ (∃ page ∈ s.db.pagesOf jobId, page.method = some .NATIVE_TEXT)
        ∧ ∃ page ∈ s.db.pagesOf jobId, page.method = some .OCR)
  := by
  have hinvariant : Lease.Valid (leaseOf s jobId) ∧ Complete n jobId s := by
    apply hrun.invariant ⟨valid_init hinit jobId, complete_init hinit n jobId⟩
    rintro t ht hstep ⟨hvalid, hcomplete⟩
    have hvalid' := valid_step hstep (guarded_of_silentWorkersStopped (hstopped t ht)) hvalid
    exact ⟨hvalid', complete_step hstep hcomplete hvalid hvalid' (hmeasures t ht)⟩
  obtain ⟨-, hcomplete⟩ := hinvariant
  constructor
  · exact ⟨_, hcomplete.length_le, hcomplete.numbers⟩
  · intro job hjob hresults
    obtain ⟨hlength, htotal, hprocessed, hfailed, hstatus, hmethod⟩ :=
      hcomplete.finished job hjob hresults
    have hnonempty : s.db.pagesOf jobId ≠ [] := by
      intro hnil
      have hfailedStatus : job.status = .FAILED := by
        rw [hstatus, hnil]
        rfl
      rw [hfailedStatus] at hresults
      rcases hresults with h | h
      · cases h
      · cases h
    refine ⟨?_, htotal, hprocessed, ?_, ?_, ?_, ?_⟩
    · rw [← hlength]
      exact hcomplete.numbers
    · rw [hfailed, failedPages, List.countP_eq_length_filter]
    · rw [hstatus, finalStatus_eq_completed_iff]
      simp [hnonempty]
    · rw [hstatus, finalStatus_eq_partial_iff]
    · rw [hmethod, extractionMethodOf_eq_mixed_iff]

/-- The first worker dies between the page it yielded second and its storage, the job is recovered,
and the second worker completes it. -/
def interruptedJob : List Label :=
  [.createJob 1 7 1 (js "eng") 0, .deliver 1 1] ++ sampleClaim 1 0 ++ sampleInspection 1
    ++ [.process 1 (.extract sampleTools), .process 1 .advance, .process 1 (.extract sampleTools),
      .process 1 .die, .tick 120001, .reconcile 1 120001, .reconcileNext 1 120001, .deliver 2 1]
    ++ sampleClaim 2 120001 ++ sampleInspection 2
    ++ [.process 2 (.extract sampleTools), .process 2 .advance, .process 2 (.extract sampleTools),
      .process 2 .advance]

/-- The interrupted job ends COMPLETED, with both pages. -/
theorem finished_job_has_all_pages_of_interruptedJob :
  ∃ s, (system sampleConfig asciiUnicode).execute
      (fun t => decide (SilentWorkersStopped sampleConfig 1 t.source)
        && decide (InspectionsReport 2 1 t.target)) sampleState interruptedJob = some s
    ∧ (∃ job ∈ s.db.ocrJobs.find 1, job.status = .COMPLETED)
    ∧ (∃ k ≤ 2, (s.db.pagesOf 1).map OcrPage.pageNumber = List.range' 1 k)
    ∧ ∀ job ∈ s.db.ocrJobs.find 1, job.status = .COMPLETED ∨ job.status = .PARTIAL →
      (s.db.pagesOf 1).map OcrPage.pageNumber = List.range' 1 2
      ∧ job.totalPages = some 2
      ∧ job.processedPages = 2
      ∧ job.failedPages = (s.db.pagesOf 1).countP (fun page => page.status = .FAILED)
      ∧ (job.status = .COMPLETED ↔ ∀ page ∈ s.db.pagesOf 1, page.status ≠ .FAILED)
      ∧ (job.status = .PARTIAL ↔ (∃ page ∈ s.db.pagesOf 1, page.status = .FAILED)
        ∧ ∃ page ∈ s.db.pagesOf 1, page.status ≠ .FAILED)
      ∧ (job.extractionMethod = some .MIXED
        ↔ (∃ page ∈ s.db.pagesOf 1, page.method = some .NATIVE_TEXT)
          ∧ ∃ page ∈ s.db.pagesOf 1, page.method = some .OCR)
  := by
  have hsome : ((system sampleConfig asciiUnicode).execute
      (fun t => decide (SilentWorkersStopped sampleConfig 1 t.source)
        && decide (InspectionsReport 2 1 t.target)) sampleState interruptedJob).any
          (fun s => (s.db.ocrJobs.find 1).any fun job => decide (job.status = .COMPLETED)) = true := by
    decide +kernel
  obtain ⟨s, hs, hcompleted⟩ := (Option.any_eq_true _ _).mp hsome
  obtain ⟨ts, hrun, hts⟩ := TransitionSystem.run_of_execute hs
  have hts : ∀ t ∈ ts, SilentWorkersStopped sampleConfig 1 t.source
      ∧ InspectionsReport 2 1 t.target := by
    intro t ht
    simpa using hts t ht
  refine ⟨s, hs, by simpa [Option.any_eq_true] using hcompleted, ?_⟩
  exact finished_job_has_all_pages hrun ⟨rfl, rfl, rfl, rfl⟩ (fun t ht => (hts t ht).1)
    (fun t ht => (hts t ht).2)

end OcrWorker

end DocuAI
