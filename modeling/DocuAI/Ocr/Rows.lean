import DocuAI.Ocr.Finalization
import DocuAI.Ocr.Ownership

/-!
# Rows of jobs

What the row of a job says of itself in every run, workers being as slow as they like.  A terminal
row is frozen because every statement has the status of the job in its condition.  The error code of
a terminal row is where the statements alone do not decide: `finalize` would end a job without pages
as FAILED and without an error.  It is never sent for one, since a worker that is through with a
file has found a page stored, or stored one itself (`Phase.HasPages`).
-/

namespace DocuAI

/-- The columns of the row of a job agree with its status. -/
structure OcrJob.WellFormed (job : OcrJob) : Prop where
  completedAt : job.completedAt ≠ none ↔ job.status ∈ TERMINAL_OCR_STATUSES
  noError : job.status = .PROCESSING ∨ job.status = .COMPLETED → job.errorCode = none
  error : job.status = .PARTIAL ∨ job.status = .FAILED ∨ job.status = .CANCELLED →
    job.errorCode ≠ none

/-- A QUEUED job comes before a PROCESSING one, and that before a terminal one. -/
def OcrJobStatus.rank : OcrJobStatus → ℕ
  | .QUEUED => 0
  | .PROCESSING => 1
  | _ => 2

/-! ### What a write makes of a row -/

/-- The pages of a job that is not COMPLETED have a most common error. -/
theorem dominantError_ne_none {pages : List OcrPage} (hpages : pages ≠ [])
    (h : finalStatus pages ≠ .COMPLETED) :
  dominantError pages ≠ none
  := by
  have hfailed : 0 < (failedPages pages).length := by
    rw [List.length_pos_iff_exists_mem]
    by_contra hnone
    apply h
    apply finalStatus_eq_completed_iff.mpr
    refine ⟨hpages, fun page hpage hstatus => hnone ⟨page, ?_⟩⟩
    exact mem_failedPages_iff.mpr ⟨hpage, hstatus⟩
  rw [dominantError, if_pos hfailed]
  apply mostCommon_ne_none
  rw [ne_eq, List.map_eq_nil_iff]
  exact List.ne_nil_of_length_pos hfailed

namespace Write

variable {staleMs now : ℕ} {db : Database} {job : OcrJob}

/-- A write counts an attempt exactly when it is a claim. -/
theorem attemptCount_data (w : Write) :
  ((w.update staleMs now db).data job).attemptCount
    = job.attemptCount + if w.kind = .claims then 1 else 0
  := by
  cases w <;> rfl

/-- A write leaves the limit of the attempts alone. -/
theorem maxAttempts_data (w : Write) :
  ((w.update staleMs now db).data job).maxAttempts = job.maxAttempts
  := by
  cases w <;> rfl

/-- The only way back is from PROCESSING to QUEUED. -/
theorem status_data (w : Write) (h : (w.update staleMs now db).guard job = true)
    (hrank : ((w.update staleMs now db).data job).status.rank < job.status.rank) :
  job.status = .PROCESSING ∧ ((w.update staleMs now db).data job).status = .QUEUED
  := by
  have hactive := w.active_of_guard h
  have hgrant := w.grant_data h
  generalize (w.update staleMs now db).data job = job' at hgrant hrank
  cases hstatus : job.status with
  | QUEUED =>
      rw [hstatus] at hrank
      cases hrank
  | PROCESSING =>
      refine ⟨rfl, ?_⟩
      rw [hstatus] at hrank
      cases hstatus' : job'.status <;> simp_all [OcrJobStatus.rank]
  | _ =>
      rw [hstatus] at hactive
      simp [ACTIVE_OCR_STATUSES] at hactive

/-- A write keeps a row well-formed, unless it finalizes a job without pages. -/
theorem wellFormed_data (w : Write) (h : (w.update staleMs now db).guard job = true)
    (hjob : job.WellFormed) (hpages : ∀ jobId, w = .finalize jobId → db.pagesOf jobId ≠ []) :
  ((w.update staleMs now db).data job).WellFormed
  := by
  have hactive := w.active_of_guard h
  have hopen : job.completedAt = none := by
    by_contra hne
    exact (mem_terminal_iff _).mp (hjob.completedAt.mp hne) hactive
  have hnotTerminal : ∀ {status : OcrJobStatus}, status ∈ ACTIVE_OCR_STATUSES →
      (job.completedAt ≠ none ↔ status ∈ TERMINAL_OCR_STATUSES) := by
    intro status hstatus
    rw [mem_terminal_iff]
    simp [hopen, hstatus]
  cases w with
  | claim jobId readAt =>
      constructor
      · exact hnotTerminal (by decide : OcrJobStatus.PROCESSING ∈ ACTIVE_OCR_STATUSES)
      · intro _
        rfl
      · rintro (h | h | h) <;> cases h
  | heartbeat jobId | setTotalPages jobId documentId totalPages | persistPage jobId page =>
      exact ⟨hjob.completedAt, hjob.noError, hjob.error⟩
  | recover jobId readAt =>
      constructor
      · exact hnotTerminal (by decide : OcrJobStatus.QUEUED ∈ ACTIVE_OCR_STATUSES)
      · rintro (h | h) <;> cases h
      · rintro (h | h | h) <;> cases h
  | requeue jobId errorCode errorMessage =>
      constructor
      · exact hnotTerminal (by decide : OcrJobStatus.QUEUED ∈ ACTIVE_OCR_STATUSES)
      · rintro (h | h) <;> cases h
      · rintro (h | h | h) <;> cases h
  | fail jobId errorCode errorMessage =>
      constructor
      · simp [update, OcrJobService.endUpdate, TERMINAL_OCR_STATUSES]
      · rintro (h | h) <;> cases h
      · intro _
        simp [update, OcrJobService.endUpdate]
  | cancel jobId errorCode errorMessage =>
      constructor
      · simp [update, OcrJobService.endUpdate, TERMINAL_OCR_STATUSES]
      · rintro (h | h) <;> cases h
      · intro _
        simp [update, OcrJobService.endUpdate]
  | finalize jobId =>
      have hterminal := finalStatus_terminal (db.pagesOf jobId)
      constructor
      · simp only [update, OcrJobService.finalizeUpdate]
        exact ⟨fun _ => hterminal, fun _ => Option.some_ne_none now⟩
      · rintro (hstatus | hstatus)
        · change finalStatus (db.pagesOf jobId) = .PROCESSING at hstatus
          rw [hstatus] at hterminal
          exact absurd hterminal (by decide)
        · exact if_pos hstatus
      · intro hstatus
        have hne : finalStatus (db.pagesOf jobId) ≠ .COMPLETED := by
          intro hcompleted
          change finalStatus (db.pagesOf jobId) = _ ∨ finalStatus (db.pagesOf jobId) = _
            ∨ finalStatus (db.pagesOf jobId) = _ at hstatus
          rw [hcompleted] at hstatus
          rcases hstatus with h | h | h <;> cases h
        change (if _ then _ else _) ≠ _
        rw [if_neg hne]
        apply dominantError_ne_none (hpages jobId rfl) hne

end Write

namespace OcrWorker

variable {config : OcrConfig} {unicode : Unicode}

/-! ### Jobs that are finalized have pages -/

/-- What the phase of a process says about the stored pages of its job. -/
def Phase.HasPages (db : Database) (jobId : ℕ) : Phase → Prop
  | .measured _ _ inspected | .resuming _ inspected => 1 ≤ inspected.totalPages
  | .extracting _ extraction =>
      1 ≤ extraction.totalPages ∧ 1 ≤ extraction.nextPage
        ∧ (1 < extraction.nextPage → db.pagesOf jobId ≠ [])
  | .yielded _ _ rest => 1 ≤ rest.totalPages ∧ 1 ≤ rest.nextPage
  | .finalizing _ => db.pagesOf jobId ≠ []
  | _ => True

/-- Only a process that is through with the pages finalizes its job. -/
theorem exists_finalizing {s : State} {a : Label} {jobId : ℕ}
    (h : a.write config unicode s = some (.finalize jobId)) :
  ∃ q ∈ s.processes.rows, ∃ job, q.phase = .finalizing job ∧ q.jobId = jobId
  := by
  unfold Label.write at h
  split at h
  · obtain ⟨q, hq, h⟩ := Option.bind_eq_some_iff.mp h
    obtain ⟨⟨write, next⟩, hact, h⟩ := Option.bind_eq_some_iff.mp h
    obtain rfl : write = some (.finalize jobId) := h
    have hacts := Process.act_acts hact
    cases hacts with
    | finalize hphase => exact ⟨q, Table.mem_of_find hq, _, hphase, rfl⟩
  · obtain ⟨r, -, h⟩ := Option.bind_eq_some_iff.mp h
    obtain ⟨job, -, h⟩ := Option.bind_eq_some_iff.mp h
    have hwrite := Option.some.inj h
    unfold Reconciler.write at hwrite
    split at hwrite
    · cases hwrite
    · cases hwrite
  · cases h

/-- A job never loses its pages. -/
theorem pagesOf_ne_nil_of_step {s s' : State} {a : Label} (h : step config unicode s a = some s')
    {jobId : ℕ} (hpages : s.db.pagesOf jobId ≠ []) :
  s'.db.pagesOf jobId ≠ []
  := by
  obtain ⟨page, hpage⟩ := List.exists_mem_of_ne_nil _ hpages
  simp only [Database.pagesOf, List.mem_filter, decide_eq_true_eq] at hpage
  have hstill : ∀ row : OcrPage, (s.db.storePage row).pagesOf jobId ≠ [] := by
    intro row
    by_cases hkey : page.key = row.key
    · apply List.ne_nil_of_mem (a := row)
      simp only [Database.pagesOf, Database.storePage, List.mem_filter, decide_eq_true_eq]
      refine ⟨Table.mem_rows_put_iff.mpr (.inl rfl), ?_⟩
      rw [← hpage.2]
      exact (Prod.mk.inj hkey).1.symm
    · apply List.ne_nil_of_mem (a := page)
      simp only [Database.pagesOf, Database.storePage, List.mem_filter, decide_eq_true_eq]
      exact ⟨Table.mem_rows_put_iff.mpr (.inr ⟨hpage.1, hkey⟩), hpage.2⟩
  rcases database_of_step h with ⟨w, -, hdb⟩ | ⟨-, hsame, -⟩
  · rw [hdb]
    by_cases hpersist : ∃ page, w = .persistPage jobId page
    · obtain ⟨page, rfl⟩ := hpersist
      apply hstill
    · rw [Write.pagesOf_perform fun page heq => hpersist ⟨page, heq⟩]
      apply hpages
  · unfold Database.pagesOf at hpages ⊢
    rw [hsame]
    apply hpages

theorem Phase.HasPages.mono {db db' : Database} {jobId : ℕ} {phase : Phase}
    (h : phase.HasPages db jobId) (hpages : db.pagesOf jobId ≠ [] → db'.pagesOf jobId ≠ []) :
  phase.HasPages db' jobId
  := by
  cases phase with
  | extracting job extraction => exact ⟨h.1, h.2.1, fun hnext => hpages (h.2.2 hnext)⟩
  | finalizing job => exact hpages h
  | _ => exact h

/-- A generator that starts anew starts at the first page, unless a page is stored. -/
theorem hasPages_extractionInput {db : Database} {now : ℕ} {q : Process} {job : OcrJob}
    {inspected : InspectedFile} (h : 1 ≤ inspected.totalPages) :
  (Phase.extracting job (.started (q.extractionInput config db now job inspected))).HasPages db
    q.jobId
  := by
  refine ⟨h, Nat.succ_pos _, ?_⟩
  rintro hnext hnil
  simp [Extraction.nextPage, Process.extractionInput, OcrJobService.persistedProgress, hnil]
    at hnext

/-- A step that sends nothing keeps what a process says of the pages. -/
theorem hasPages_quiet {db : Database} {now : ℕ} {q : Process} {a : Action}
    {next : Bool → Progress} (h : q.phase.HasPages db q.jobId)
    (hact : q.act config unicode db now a = some ⟨none, next⟩) :
  (next false).phase.HasPages db q.jobId
  := by
  have hmoves := Process.moves_of_act hact
  clear hact
  cases hmoves with
  | loads hphase =>
      apply Process.load_cases (motive := fun phase => phase.HasPages db q.jobId)
      · trivial
      · trivial
      · exact fun _ => trivial
  | inspects hphase hinspect => exact (totalPages_of_inspect hinspect).1
  | resumes hphase =>
      rw [hphase] at h
      apply hasPages_extractionInput h
  | yields hphase hyield =>
      rw [hphase] at h
      obtain ⟨htotal, hnext, -⟩ := h
      obtain ⟨-, -, hrest, hrestTotal⟩ := Extraction.next_page hnext hyield
      exact ⟨by omega, by omega⟩
  | ends hphase hyield =>
      rw [hphase] at h
      obtain ⟨htotal, hnext, hpages⟩ := h
      have hdone := Extraction.next_done hyield
      apply hpages (by omega)
  | _ => trivial

/-- A job has pages once one is stored. -/
theorem pagesOf_persistPage_ne_nil (staleMs : ℕ) {now jobId : ℕ} {db : Database}
    {page : ExtractedPage} :
  ((Write.persistPage jobId page).perform staleMs now db).1.pagesOf jobId ≠ []
  := by
  apply List.ne_nil_of_mem (a := OcrJobService.pageRow jobId page)
  unfold Database.pagesOf
  rw [Write.perform_ocrPages, List.mem_filter]
  exact ⟨Table.mem_rows_put_iff.mpr (.inl rfl), decide_eq_true rfl⟩

/-! ### The invariant -/

/-- The rows are well-formed, and what the processes say of the pages is true. -/
structure RowsInvariant (s : State) : Prop where
  rows : ∀ job ∈ s.db.ocrJobs.rows, job.WellFormed
  pages : ∀ q ∈ s.processes.rows, q.phase.HasPages s.db q.jobId

theorem rowsInvariant_init {s : State} (h : (system config unicode).init s) :
  RowsInvariant s
  := by
  obtain ⟨hjobs, -, hprocesses, -⟩ := h
  constructor
  · rw [hjobs]
    simp
  · rw [hprocesses]
    simp

/-- A process says the truth of the pages after a step of its own. -/
theorem hasPages_act {s : State} {q : Process} {action : Action} {e : Effect}
    (h : q.phase.HasPages s.db q.jobId)
    (hact : q.act config unicode s.db s.now action = some e)
    (hmono : s.db.pagesOf q.jobId ≠ [] → (s.apply config q e).db.pagesOf q.jobId ≠ []) :
  (e.next (e.reply config s)).phase.HasPages (s.apply config q e).db q.jobId
  := by
  have hacts := Process.act_acts hact
  obtain ⟨write, next⟩ := e
  cases write with
  | none => apply (hasPages_quiet h hact).mono hmono
  | some w =>
      cases hacts with
      | claim hphase =>
          simp only
          split
          · trivial
          · trivial
      | heartbeat => apply h.mono hmono
      | measure hphase =>
          rw [hphase] at h
          apply h
      | persist hphase =>
          rw [hphase] at h
          exact ⟨h.1, h.2, fun _ => pagesOf_persistPage_ne_nil config.staleJobMs⟩
      | finalize hphase | cancel hphase | fail hholds | requeue hholds => trivial

theorem RowsInvariant.step {s s' : State} {a : Label} (h : RowsInvariant s)
    (hstep : (system config unicode).step s a = some s') :
  RowsInvariant s'
  := by
  constructor
  · intro job' hjob'
    rcases row_of_step hstep hjob' with ⟨job, hjob, rfl⟩ | ⟨id, userId, documentId, language, _, rfl⟩
    · unfold Label.applied
      split
      · rename_i w hw
        split
        swap
        · apply h.rows job hjob
        unfold Update.apply
        split
        swap
        · apply h.rows job hjob
        rename_i hguard
        apply w.wellFormed_data hguard (h.rows job hjob)
        rintro jobId rfl
        obtain ⟨q, hq, job, hphase, rfl⟩ := exists_finalizing hw
        have hpages := h.pages q hq
        rw [hphase] at hpages
        apply hpages
      · apply h.rows job hjob
    · constructor
      · simp [OcrService.createdJob, TERMINAL_OCR_STATUSES]
      · intro _
        rfl
      · rintro (h | h | h) <;> cases h
  · intro r hr
    have hmono : ∀ {jobId}, s.db.pagesOf jobId ≠ [] → s'.db.pagesOf jobId ≠ [] :=
      pagesOf_ne_nil_of_step hstep
    cases processStep_of_step hstep hr with
    | acts hq ha hact hs' =>
        subst hs'
        apply hasPages_act (h.pages _ hq) hact hmono
    | stays hq => apply (h.pages r hq).mono hmono
    | delivered id jobId => trivial

/-! ### Rows along a run -/

/-- The transition is a successful claim of the job. -/
def Claims (config : OcrConfig) (unicode : Unicode) (t : Transition State Label) (jobId : ℕ) :
    Prop :=
  ∃ readAt, t.label.write config unicode t.source = some (.claim jobId readAt)
    ∧ ((Write.claim jobId readAt).perform config.staleJobMs t.source.now t.source.db).2 = true

/-- What a transition may do to the row of a job: its status goes back from PROCESSING to QUEUED
only, and an attempt is counted by a successful claim only. -/
structure RowMoves (config : OcrConfig) (unicode : Unicode) (t : Transition State Label)
    (job job' : OcrJob) : Prop where
  status : job'.status.rank < job.status.rank → job.status = .PROCESSING ∧ job'.status = .QUEUED
  claimed : Claims config unicode t job.id → job'.attemptCount = job.attemptCount + 1
  unclaimed : ¬Claims config unicode t job.id → job'.attemptCount = job.attemptCount

theorem rowMoves_applied {t : Transition State Label} {job : OcrJob}
    (hjob : t.source.db.ocrJobs.find job.id = some job) :
  RowMoves config unicode t job (t.label.applied config unicode t.source job)
  := by
  have hsame : ¬Claims config unicode t job.id → RowMoves config unicode t job job := by
    intro hnot
    exact ⟨fun hrank => absurd hrank (Nat.lt_irrefl _), fun hclaims => absurd hclaims hnot,
      fun _ => rfl⟩
  unfold Label.applied
  split
  swap
  · rename_i hw
    apply hsame
    rintro ⟨readAt, hclaim, -⟩
    rw [hw] at hclaim
    cases hclaim
  rename_i w hw
  split
  swap
  · rename_i hid
    apply hsame
    rintro ⟨readAt, hclaim, -⟩
    rw [hw] at hclaim
    obtain rfl := Option.some.inj hclaim
    apply hid rfl
  rename_i hid
  unfold Update.apply
  split
  swap
  · rename_i hguard
    apply hsame
    rintro ⟨readAt, hclaim, hreply⟩
    rw [hw] at hclaim
    obtain rfl := Option.some.inj hclaim
    obtain ⟨job', hjob', hguard'⟩ := (Write.perform_reply _).mp hreply
    rw [hid, hjob] at hjob'
    obtain rfl := Option.some.inj hjob'
    apply hguard hguard'
  rename_i hguard
  have hreply := (Write.perform_reply w).mpr ⟨job, hid ▸ hjob, hguard⟩
  refine ⟨w.status_data hguard, ?_, ?_⟩
  · rintro ⟨readAt, hclaim, -⟩
    rw [hw] at hclaim
    obtain rfl := Option.some.inj hclaim
    rw [Write.attemptCount_data]
    rfl
  · intro hnot
    have hkind : w.kind ≠ .claims := by
      cases w with
      | claim jobId readAt =>
          obtain rfl : jobId = job.id := hid
          exact absurd ⟨readAt, hw, hreply⟩ hnot
      | _ => rintro ⟨⟩
    rw [Write.attemptCount_data, if_neg hkind, Nat.add_zero]

/-- In every run the rows of the jobs are well-formed.  A terminal row never changes again, the
status goes back from PROCESSING to QUEUED only, and the attempts are counted by the successful
claims. -/
theorem job_rows_wellFormed {s s' : State} {ts : List (Transition State Label)}
    (hrun : (system config unicode).Run s ts s') (hinit : (system config unicode).init s) :
  (∀ job ∈ s'.db.ocrJobs.rows, job.WellFormed)
  ∧ ∀ t ∈ ts, ∀ jobId job, t.source.db.ocrJobs.find jobId = some job →
      (job.status ∈ TERMINAL_OCR_STATUSES → s'.db.ocrJobs.find jobId = some job)
      ∧ ∃ job', t.target.db.ocrJobs.find jobId = some job' ∧ RowMoves config unicode t job job'
  := by
  constructor
  · have hinvariant : RowsInvariant s' := by
      apply hrun.invariant (rowsInvariant_init hinit)
      intro t _ hstep h
      apply h.step hstep
    apply hinvariant.rows
  · intro t ht jobId job hjob
    constructor
    · intro hterminal
      obtain ⟨before, after, rfl, -, hafter⟩ := hrun.split_of_mem ht
      have htarget := find_of_terminal (hrun.step_of_mem ht) hjob hterminal
      apply hafter.invariant htarget
      intro t' _ hstep' hfind
      apply find_of_terminal hstep' hfind hterminal
    · obtain rfl := Table.key_of_find hjob
      exact ⟨_, find_of_step (hrun.step_of_mem ht) hjob, rowMoves_applied hjob⟩

/-- The first worker of a job falls silent and is recovered from, and comes back when the second
one has finished the job. -/
def returningWorker : List Label :=
  [.createJob 1 7 1 (js "eng") 0, .deliver 1 1] ++ sampleClaim 1 0 ++ sampleInspection 1
    ++ [.process 1 (.extract sampleTools), .tick 120001, .reconcile 1 120001,
      .reconcileNext 1 120001, .deliver 2 1]
    ++ sampleClaim 2 120001 ++ sampleInspection 2
    ++ [.process 2 (.extract sampleTools), .process 2 .advance, .process 2 (.extract sampleTools),
      .process 2 .advance, .process 2 (.extract sampleTools), .process 2 .advance,
      .process 1 .advance, .process 1 .heartbeat, .process 1 (.throw (.other (js "lost"))),
      .process 1 .advance]

/-- The job has been COMPLETED in its second attempt, and stays as it is. -/
theorem job_rows_wellFormed_of_returningWorker :
  ∃ ts s', (system sampleConfig asciiUnicode).Run sampleState ts s'
    ∧ (s'.db.ocrJobs.find 1).map (fun job => (job.status, job.attemptCount))
      = some (.COMPLETED, 2)
    ∧ (∀ job ∈ s'.db.ocrJobs.rows, job.WellFormed)
    ∧ ∀ t ∈ ts, ∀ jobId job, t.source.db.ocrJobs.find jobId = some job →
      (job.status ∈ TERMINAL_OCR_STATUSES → s'.db.ocrJobs.find jobId = some job)
      ∧ ∃ job', t.target.db.ocrJobs.find jobId = some job'
        ∧ RowMoves sampleConfig asciiUnicode t job job'
  := by
  have hsome : ((system sampleConfig asciiUnicode).execute (fun _ => true) sampleState
      returningWorker).any (fun s => (s.db.ocrJobs.find 1).map (fun job =>
        (job.status, job.attemptCount)) = some (.COMPLETED, 2)) = true := by
    decide +kernel
  obtain ⟨s', hs, hend⟩ := (Option.any_eq_true _ _).mp hsome
  obtain ⟨ts, hrun, -⟩ := TransitionSystem.run_of_execute hs
  exact ⟨ts, s', hrun, of_decide_eq_true hend, job_rows_wellFormed hrun ⟨rfl, rfl, rfl, rfl⟩⟩

end OcrWorker

end DocuAI
