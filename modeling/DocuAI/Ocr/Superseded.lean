import DocuAI.Ocr.Ownership

/-!
# Superseded workers and terminal jobs

Every change of a job is guarded by its status, and by nothing that tells one attempt from
another; storing a page is not guarded at all.  A worker that stalled for longer than `staleJobMs`
still sends what its program says, so that its writes hit the job of a later attempt, or a job that
has ended.  What it sends then is harmless exactly when it repeats what is stored already.
-/

namespace DocuAI

/-! ### What a write changes -/

/-- Storing a page leaves the pages of its job as they are exactly when the page is stored
already, with the same content. -/
theorem Database.pagesOf_storePage_eq_iff {db : Database} (page : OcrPage) :
  (db.storePage page).pagesOf page.ocrJobId = db.pagesOf page.ocrJobId
    ↔ db.ocrPages.find page.key = some page
  := by
  constructor
  · intro h
    apply find_page_iff.mpr
    refine ⟨?_, rfl⟩
    rw [← h]
    have hfind : (db.storePage page).ocrPages.find (page.ocrJobId, page.pageNumber) = some page := by
      rw [storePage, Table.find_put]
      exact if_pos rfl
    exact (find_page_iff.mp hfind).1
  · apply pagesOf_storePage_of_find

namespace OcrWorker

variable {config : OcrConfig} {unicode : Unicode}

/-- The pages of a job after a worker has stored one. -/
theorem pagesOf_persist {db : Database} {staleMs now jobId : ℕ} {page : ExtractedPage} :
  ((Write.persistPage jobId page).perform staleMs now db).1.pagesOf jobId
    = (db.storePage (OcrJobService.pageRow jobId page)).pagesOf jobId
  := by
  unfold Database.pagesOf
  rw [Write.perform_ocrPages]

/-- The page is stored already, with the same content. -/
def Stored (db : Database) (jobId : ℕ) (page : ExtractedPage) : Prop :=
  db.ocrPages.find (jobId, page.pageNumber) = some (OcrJobService.pageRow jobId page)

instance (db : Database) (jobId : ℕ) (page : ExtractedPage) : Decidable (Stored db jobId page) :=
  inferInstanceAs (Decidable (_ = _))

theorem pagesOf_persist_eq_iff {db : Database} (staleMs now : ℕ) {jobId : ℕ}
    {page : ExtractedPage} :
  ((Write.persistPage jobId page).perform staleMs now db).1.pagesOf jobId = db.pagesOf jobId
    ↔ Stored db jobId page
  := by
  rw [pagesOf_persist]
  exact Database.pagesOf_storePage_eq_iff (OcrJobService.pageRow jobId page)

/-! ### Superseded workers -/

/-- The status, the counters and the pages of a job. -/
def results (db : Database) (jobId : ℕ) : Option (OcrJobStatus × ℕ × ℕ) × List OcrPage :=
  ((db.ocrJobs.find jobId).map fun job => (job.status, job.processedPages, job.failedPages),
    db.pagesOf jobId)

/-- The process still holds a job which a later claim has taken over and owns. -/
def Superseded (s : State) (q : Process) : Prop :=
  q.phase.holds = true
    ∧ ∃ job ∈ s.db.ocrJobs.find q.jobId, job.status = .PROCESSING ∧ q.attempt < job.attemptCount

instance (s : State) (q : Process) : Decidable (Superseded s q) :=
  inferInstanceAs (Decidable (_ ∧ ∃ job ∈ s.db.ocrJobs.find q.jobId, _))

/-- The counters of the job are those of its stored pages. -/
def Counted (db : Database) (jobId : ℕ) : Prop :=
  ∀ job ∈ db.ocrJobs.find jobId,
    job.processedPages = min (job.totalPages.getD (db.pagesOf jobId).length) (db.pagesOf jobId).length
      ∧ job.failedPages = (failedPages (db.pagesOf jobId)).length

instance (db : Database) (jobId : ℕ) : Decidable (Counted db jobId) :=
  inferInstanceAs (Decidable (∀ job ∈ db.ocrJobs.find jobId, _))

/-- The statement at which a process stands is harmless for a job that somebody else works on: it
neither ends nor requeues the job, and a page it stores is there already and counted. -/
def Phase.Harmless (db : Database) (jobId : ℕ) : Phase → Prop
  | .exhausted | .cancelling _ | .finalizing _ | .failing _ _ => False
  | .yielded _ page _ => Stored db jobId page ∧ Counted db jobId
  | _ => True

instance (db : Database) (jobId : ℕ) : (phase : Phase) → Decidable (phase.Harmless db jobId)
  | .exhausted | .cancelling _ | .finalizing _ | .failing _ _ => isFalse id
  | .yielded _ page _ => inferInstanceAs (Decidable (Stored db jobId page ∧ Counted db jobId))
  | .delivered | .found _ | .claimed _ | .starting _ | .loading _ | .downloading _ _
  | .inspecting _ _ | .measured _ _ _ | .resuming _ _ | .extracting _ _ | .concluding _ | .returned
  | .dead => isTrue trivial

/-- A step of a superseded process changes nothing of its job. -/
def SupersededChangesNothing (t : Transition State Label) : Prop :=
  ∀ q ∈ t.source.processes.rows, Superseded t.source q → t.label.isOf q.id = true →
    results t.target.db q.jobId = results t.source.db q.jobId

/-- A superseded process executes harmless statements only. -/
def SupersededHarmless (t : Transition State Label) : Prop :=
  ∀ q ∈ t.source.processes.rows, Superseded t.source q → t.label.advances q.id = true →
    q.phase.Harmless t.source.db q.jobId

instance (t : Transition State Label) : Decidable (SupersededChangesNothing t) :=
  inferInstanceAs (Decidable (∀ q ∈ t.source.processes.rows, _ → _ → _ = _))

instance (t : Transition State Label) : Decidable (SupersededHarmless t) :=
  inferInstanceAs (Decidable (∀ q ∈ t.source.processes.rows, _))

/-- A write that stores no page and keeps status and counters changes no results. -/
theorem results_perform (w : Write) {staleMs now : ℕ} {db : Database}
    (hw : ∀ job, (w.update staleMs now db).guard job = true →
      ((w.update staleMs now db).data job).status = job.status
      ∧ ((w.update staleMs now db).data job).processedPages = job.processedPages
      ∧ ((w.update staleMs now db).data job).failedPages = job.failedPages)
    (hpersist : ∀ page, w ≠ .persistPage w.jobId page) :
  results (w.perform staleMs now db).1 w.jobId = results db w.jobId
  := by
  unfold results
  rw [Write.pagesOf_perform hpersist, Write.find_perform, if_pos rfl, Option.map_map]
  congr 2
  funext job
  simp only [Function.comp_apply, Update.apply]
  split
  · rename_i hguard
    obtain ⟨hstatus, hprocessed, hfailed⟩ := hw job hguard
    rw [hstatus, hprocessed, hfailed]
  · rfl

theorem results_heartbeat {db : Database} {staleMs now jobId : ℕ} :
  results ((Write.heartbeat jobId).perform staleMs now db).1 jobId = results db jobId
  := results_perform (.heartbeat jobId) (fun _ _ => ⟨rfl, rfl, rfl⟩) (by rintro page ⟨⟩)

theorem results_setTotalPages {db : Database} {staleMs now jobId documentId totalPages : ℕ} :
  results ((Write.setTotalPages jobId documentId totalPages).perform staleMs now db).1 jobId
    = results db jobId
  := results_perform (.setTotalPages jobId documentId totalPages)
    (fun _ _ => ⟨rfl, rfl, rfl⟩) (by rintro page ⟨⟩)

/-- A write that ends or requeues a PROCESSING job changes its results. -/
theorem results_ne_of_kind {w : Write} {staleMs now : ℕ} {db : Database} {job : OcrJob}
    (hjob : db.ocrJobs.find w.jobId = some job) (hstatus : job.status = .PROCESSING)
    (hguard : (w.update staleMs now db).guard job = true)
    (hkind : w.kind = .ends ∨ w.kind = .requeues) :
  results (w.perform staleMs now db).1 w.jobId ≠ results db w.jobId
  := by
  intro hresults
  have hrow := congrArg Prod.fst hresults
  simp only [results, Write.find_perform, if_true, hjob, Option.map_some, Option.some.injEq,
    Update.apply_of_guard _ hguard, Prod.mk.injEq] at hrow
  have hheld := OcrJob.grant_eq_held_iff.mpr ⟨hrow.1.trans hstatus, rfl⟩
  rw [Write.grant_data w hguard] at hheld
  rcases hkind with hkind | hkind
  · rw [hkind] at hheld
    cases hheld
  · rw [hkind] at hheld
    cases hheld

/-- Storing a page for a PROCESSING job changes nothing exactly when the page is stored and counted
already. -/
theorem results_persist_iff {db : Database} {staleMs now jobId : ℕ} {page : ExtractedPage}
    {job : OcrJob} (hjob : db.ocrJobs.find jobId = some job) (hstatus : job.status = .PROCESSING) :
  results ((Write.persistPage jobId page).perform staleMs now db).1 jobId = results db jobId
    ↔ Stored db jobId page ∧ Counted db jobId
  := by
  rw [← pagesOf_persist_eq_iff staleMs now]
  have hguard : ((Write.persistPage jobId page).update staleMs now db).guard job = true :=
    decide_eq_true hstatus
  have hfind : ((Write.persistPage jobId page).perform staleMs now db).1.ocrJobs.find jobId
      = some (((Write.persistPage jobId page).update staleMs now db).data job) := by
    rw [Write.find_perform]
    simp only [Write.jobId, if_true, hjob, Option.map_some, Update.apply_of_guard _ hguard]
  unfold results
  rw [hfind, hjob, Prod.mk.injEq, and_comm]
  apply and_congr_right
  intro hpages
  rw [pagesOf_persist] at hpages
  simp only [Write.update, OcrJobService.countPagesUpdate, hpages, Option.map_some,
    Option.some.injEq, Prod.mk.injEq, true_and, Counted, hjob, Option.mem_def, forall_eq']
  exact and_congr eq_comm eq_comm

section

variable {s : State} {q : Process}

/-- The next statement of a superseded process changes nothing exactly when it is harmless. -/
theorem results_advance_iff {e : Effect} (hsuperseded : Superseded s q)
    (hact : q.act config unicode s.db s.now .advance = some e) :
  results (s.apply config q e).db q.jobId = results s.db q.jobId
    ↔ q.phase.Harmless s.db q.jobId
  := by
  obtain ⟨-, job, hjob, hstatus, -⟩ := hsuperseded
  have hends : ∀ w : Write, w.jobId = q.jobId → (w.kind = .ends ∨ w.kind = .requeues) →
      (w.update config.staleJobMs s.now s.db).guard job = true →
      ¬ results (w.perform config.staleJobMs s.now s.db).1 q.jobId = results s.db q.jobId := by
    intro w hw hkind hguard
    rw [← hw]
    exact results_ne_of_kind (hw ▸ hjob) hstatus hguard hkind
  have hactive : job.status ∈ ACTIVE_OCR_STATUSES := by
    rw [hstatus]
    decide
  have hmoves := Process.moves_of_act hact
  clear hact
  cases hmoves with
  | givesUp hphase =>
      rw [hphase]
      exact iff_of_false (hends (.fail q.jobId _ _) rfl (.inl rfl) (decide_eq_true hactive)) id
  | cancels hphase =>
      rw [hphase]
      exact iff_of_false (hends (.cancel q.jobId _ _) rfl (.inl rfl) (decide_eq_true hactive)) id
  | finalizes hphase =>
      rw [hphase]
      exact iff_of_false (hends (.finalize q.jobId) rfl (.inl rfl) (decide_eq_true hstatus)) id
  | handles hphase hw =>
      rw [hphase]
      subst hw
      refine iff_of_false ?_ id
      unfold Process.handleFailure
      simp only
      split
      · exact hends (.fail q.jobId _ _) rfl (.inl rfl) (decide_eq_true hactive)
      · exact hends (.requeue q.jobId _ _) rfl (.inr rfl) (decide_eq_true hstatus)
  | @persists _ page _ hphase =>
      rw [hphase]
      change results ((Write.persistPage q.jobId page).perform config.staleJobMs s.now s.db).1 q.jobId
        = _ ↔ _
      exact results_persist_iff hjob hstatus
  | @measures _ document inspected hphase =>
      rw [hphase]
      refine iff_of_true ?_ trivial
      change results ((Write.setTotalPages q.jobId document.id inspected.totalPages).perform
        config.staleJobMs s.now s.db).1 q.jobId = _
      exact results_setTotalPages
  -- the others send nothing
  | ignores hphase | finds hphase | exhausts hphase | starts hphase | enters hphase | loads hphase
  | resumes hphase | concludes hphase =>
      rw [hphase]
      exact iff_of_true rfl trivial

/-- Any other step of a superseded process changes nothing. -/
theorem results_apply {a : Action} {e : Effect} (hsuperseded : Superseded s q)
    (hact : q.act config unicode s.db s.now a = some e) (ha : a ≠ .advance) :
  results (s.apply config q e).db q.jobId = results s.db q.jobId
  := by
  obtain ⟨write, next⟩ := e
  rcases write_of_act hact with rfl | ⟨job, hphase⟩ | hnone | hheartbeat
  · exact absurd rfl ha
  · have hholds := hsuperseded.1
    rw [hphase] at hholds
    cases hholds
  · obtain rfl : write = none := hnone
    rfl
  · obtain rfl : write = some (.heartbeat q.jobId) := hheartbeat
    change results ((Write.heartbeat q.jobId).perform config.staleJobMs s.now s.db).1 q.jobId = _
    exact results_heartbeat

end

/-- Superseded workers change nothing of their jobs in a run exactly when all they execute is
harmless: none of them ends or requeues its job, and none stores a page that is not stored and
counted already. -/
theorem superseded_changes_nothing_iff {s₀ s : State} {ts : List (Transition State Label)}
    (hrun : (system config unicode).Run s₀ ts s) :
  (∀ t ∈ ts, SupersededChangesNothing t) ↔ ∀ t ∈ ts, SupersededHarmless t
  := by
  constructor
  · intro h t ht q hq hsuperseded hadvances
    have hlabel := Label.eq_of_advances hadvances
    have hstep := hrun.step_of_mem ht
    rw [hlabel] at hstep
    obtain ⟨e, hact, htarget⟩ := target_of_step hq hstep
    rw [← results_advance_iff hsuperseded hact, ← htarget]
    apply h t ht q hq hsuperseded
    rw [hlabel]
    exact decide_eq_true rfl
  · intro h t ht q hq hsuperseded hof
    obtain ⟨action, hlabel⟩ := Label.eq_of_isOf hof
    have hstep := hrun.step_of_mem ht
    rw [hlabel] at hstep
    obtain ⟨e, hact, htarget⟩ := target_of_step hq hstep
    rw [htarget]
    by_cases hadvance : action = .advance
    · subst hadvance
      apply (results_advance_iff hsuperseded hact).mpr
      apply h t ht q hq hsuperseded
      rw [hlabel]
      exact decide_eq_true rfl
    · exact results_apply hsuperseded hact hadvance

/-- The first worker stalls in `run` for longer than `staleJobMs`, and a second one takes the job
over. -/
def takeover : List Label :=
  [.createJob 1 7 1 (js "eng") 0, .deliver 1 1] ++ sampleClaim 1 0
    ++ [.tick 120001, .deliver 2 1] ++ sampleClaim 2 120001

/-- A superseded worker that renews a heartbeat, looks its document up and downloads the file
changes nothing. -/
theorem superseded_changes_nothing_of_download :
  ∃ ts s, (system sampleConfig asciiUnicode).Run sampleState ts s
    ∧ (∃ q ∈ s.processes.rows, Superseded s q)
    ∧ ∀ t ∈ ts, SupersededChangesNothing t
  := by
  have hsome : ((system sampleConfig asciiUnicode).execute (fun t => decide (SupersededHarmless t))
      sampleState (takeover ++ [.process 1 .heartbeat, .process 1 .advance,
        .process 1 (.download (.object (some 500) [500] none))])).any
          (fun s => s.processes.rows.any fun q => decide (Superseded s q)) = true := by
    decide +kernel
  obtain ⟨s, hs, hsuperseded⟩ := (Option.any_eq_true _ _).mp hsome
  obtain ⟨ts, hrun, hts⟩ := TransitionSystem.run_of_execute hs
  refine ⟨ts, s, hrun, by simpa using hsuperseded, ?_⟩
  apply (superseded_changes_nothing_iff hrun).mpr
  intro t ht
  exact of_decide_eq_true (hts t ht)

/-- A superseded worker whose download fails returns the job to the queue, under the worker that
owns it. -/
theorem superseded_requeues :
  ∃ ts s, (system sampleConfig asciiUnicode).init sampleState
    ∧ (system sampleConfig asciiUnicode).Run sampleState ts s
    ∧ (∃ job ∈ s.db.ocrJobs.find 1, job.status = .QUEUED)
    ∧ ∃ t ∈ ts, ¬ SupersededChangesNothing t
  := by
  let labels := takeover ++ [.process 1 .advance, .process 1 (.download (.thrown (.storage []))),
    .process 1 .advance]
  have hsome : ((system sampleConfig asciiUnicode).execute (fun _ => true) sampleState
      labels).any (fun s => (s.db.ocrJobs.find 1).any fun job => decide (job.status = .QUEUED))
        = true := by
    decide +kernel
  have hnone : ((system sampleConfig asciiUnicode).execute
      (fun t => decide (SupersededChangesNothing t)) sampleState labels).isNone = true := by
    decide +kernel
  obtain ⟨s, hs, hqueued⟩ := (Option.any_eq_true _ _).mp hsome
  obtain ⟨ts, hrun, t, ht, hchanges⟩ :=
    TransitionSystem.exists_failing_of_execute hs (Option.isNone_iff_eq_none.mp hnone)
  exact ⟨ts, s, ⟨rfl, rfl, rfl, rfl⟩, hrun, by simpa [Option.any_eq_true] using hqueued, t, ht,
    of_decide_eq_false hchanges⟩

/-! ### Terminal jobs -/

/-- The job has reached a terminal status. -/
def Ended (db : Database) (jobId : ℕ) : Prop :=
  ∃ job ∈ db.ocrJobs.find jobId, job.status ∈ TERMINAL_OCR_STATUSES

instance (db : Database) (jobId : ℕ) : Decidable (Ended db jobId) :=
  inferInstanceAs (Decidable (∃ job ∈ db.ocrJobs.find jobId, _))

/-- The statement at which a process stands stores no page, or one that is stored already. -/
def Phase.Repeats (db : Database) (jobId : ℕ) : Phase → Prop
  | .yielded _ page _ => Stored db jobId page
  | _ => True

instance (db : Database) (jobId : ℕ) : (phase : Phase) → Decidable (phase.Repeats db jobId)
  | .yielded _ page _ => inferInstanceAs (Decidable (Stored db jobId page))
  | .delivered | .found _ | .claimed _ | .exhausted | .starting _ | .loading _ | .cancelling _
  | .downloading _ _ | .inspecting _ _ | .measured _ _ _ | .resuming _ _ | .extracting _ _
  | .finalizing _ | .concluding _ | .failing _ _ | .returned | .dead => isTrue trivial

/-- Once the job is terminal, its processes store only pages that are stored already. -/
def RepeatsWhenEnded (jobId : ℕ) (t : Transition State Label) : Prop :=
  Ended t.source.db jobId → ∀ q ∈ t.source.processes.rows, q.jobId = jobId →
    t.label.advances q.id = true → q.phase.Repeats t.source.db jobId

instance (jobId : ℕ) (t : Transition State Label) : Decidable (RepeatsWhenEnded jobId t) :=
  inferInstanceAs (Decidable (_ → ∀ q ∈ t.source.processes.rows, _))

theorem Ended.step {s s' : State} {a : Label} (h : step config unicode s a = some s') {jobId : ℕ}
    (hended : Ended s.db jobId) :
  Ended s'.db jobId
  := by
  obtain ⟨job, hjob, hterminal⟩ := hended
  exact ⟨job, find_of_terminal h hjob hterminal, hterminal⟩

/-- A step leaves the pages of a job as they are exactly when it stores none of them, or one that
is stored already. -/
theorem pagesOf_step_iff {s s' : State} {a : Label} (h : step config unicode s a = some s')
    {jobId : ℕ} :
  s'.db.pagesOf jobId = s.db.pagesOf jobId
    ↔ ∀ q ∈ s.processes.rows, q.jobId = jobId → a.advances q.id = true →
      q.phase.Repeats s.db jobId
  := by
  constructor
  · rintro hpages q hq rfl hadvances
    obtain rfl := Label.eq_of_advances hadvances
    obtain ⟨e, hact, rfl⟩ := target_of_step hq h
    cases hphase : q.phase with
    | yielded job page rest =>
        simp only [Process.act, Process.advance, hphase] at hact
        obtain rfl := Option.some.inj hact
        exact (pagesOf_persist_eq_iff config.staleJobMs s.now).mp hpages
    | _ => trivial
  · intro hrepeats
    generalize s'.db = db', databaseStep_of_step h = hdb
    cases hdb with
    | same hjobs hpages howner => rw [Database.pagesOf, hpages, Database.pagesOf]
    | create ha hjobs => rfl
    | write w hpersist =>
        by_cases hw : ∃ page, w = .persistPage jobId page
        · obtain ⟨page, rfl⟩ := hw
          obtain ⟨q, hq, hjob, hadvances, job, rest, hphase⟩ := hpersist page rfl
          have hstored := hrepeats q hq hjob hadvances
          rw [hphase] at hstored
          exact (pagesOf_persist_eq_iff config.staleJobMs s.now).mpr hstored
        · apply Write.pagesOf_perform
          intro page heq
          exact hw ⟨page, heq⟩

/-- The pages of a job never change from the time it is terminal on, exactly when from then on its
processes store only pages that are stored already. -/
theorem terminal_pages_immutable_iff {s₀ s : State} {ts : List (Transition State Label)}
    (hrun : (system config unicode).Run s₀ ts s) {jobId : ℕ} :
  (∀ before t after, ts = before ++ t :: after → Ended t.source.db jobId →
    ∀ t' ∈ t :: after, t'.target.db.pagesOf jobId = t.source.db.pagesOf jobId)
  ↔ ∀ t ∈ ts, RepeatsWhenEnded jobId t
  := by
  constructor
  · intro h t ht hended
    obtain ⟨before, after, rfl, -, -⟩ := hrun.split_of_mem ht
    apply (pagesOf_step_iff (hrun.step_of_mem ht)).mp
    exact h before t after rfl hended t List.mem_cons_self
  · rintro h before t after rfl hended
    obtain ⟨s₁, -, hafter⟩ := hrun.of_append
    have hsource : t.source = s₁ := by
      cases hafter
      rfl
    have hstep : ∀ t' ∈ t :: after, t'.target.db.pagesOf jobId = t'.source.db.pagesOf jobId := by
      intro t' ht'
      have hended' : Ended t'.source.db jobId := by
        apply hafter.invariant_source (fun s => Ended s.db jobId) (hsource ▸ hended) _ ht'
        intro t'' _ hstep hended''
        exact Ended.step hstep hended''
      apply (pagesOf_step_iff (hafter.step_of_mem ht')).mpr
      exact h t' (List.mem_append_right _ ht') hended'
    rw [hsource]
    exact hafter.stable (fun s => s.db.pagesOf jobId) hstep

/-- Tools that fail. -/
def failingTools : Tools where
  extractText _ _ _ := .error (.processing (.transient .OCR_PROCESSING_FAILED [] none))
  renderPage _ _ _ := .error (.processing (.transient .OCR_PROCESSING_FAILED [] none))
  recognize _ _ := .error (.processing (.transient .OCR_PROCESSING_FAILED [] none))

/-- The first worker stalls with a page it got from the given tools, the second completes the job,
and the first then stores its page. -/
def latePage (tools : Tools) : List Label :=
  [.createJob 1 7 1 (js "eng") 0, .deliver 1 1] ++ sampleClaim 1 0 ++ sampleInspection 1
    ++ [.process 1 (.extract tools), .tick 120001, .deliver 2 1]
    ++ sampleClaim 2 120001 ++ sampleInspection 2
    ++ [.process 2 (.extract sampleTools), .process 2 .advance, .process 2 (.extract sampleTools),
      .process 2 .advance, .process 2 (.extract sampleTools), .process 2 .advance,
      .process 1 .advance]

/-- A late page that repeats the stored one leaves the pages of the completed job alone. -/
theorem terminal_pages_immutable_of_latePage :
  ∃ ts s, (system sampleConfig asciiUnicode).Run sampleState ts s
    ∧ (∃ job ∈ s.db.ocrJobs.find 1, job.status = .COMPLETED)
    ∧ ∀ before t after, ts = before ++ t :: after → Ended t.source.db 1 →
      ∀ t' ∈ t :: after, t'.target.db.pagesOf 1 = t.source.db.pagesOf 1
  := by
  have hsome : ((system sampleConfig asciiUnicode).execute (fun t => decide (RepeatsWhenEnded 1 t))
      sampleState (latePage sampleTools)).any (fun s =>
        (s.db.ocrJobs.find 1).any fun job => decide (job.status = .COMPLETED)) = true := by
    decide +kernel
  obtain ⟨s, hs, hcompleted⟩ := (Option.any_eq_true _ _).mp hsome
  obtain ⟨ts, hrun, hts⟩ := TransitionSystem.run_of_execute hs
  refine ⟨ts, s, hrun, by simpa [Option.any_eq_true] using hcompleted, ?_⟩
  apply (terminal_pages_immutable_iff hrun).mpr
  intro t ht
  exact of_decide_eq_true (hts t ht)

/-- A late page whose tools failed replaces a page of the completed job. -/
theorem late_page_replaces :
  ∃ ts s, (system sampleConfig asciiUnicode).init sampleState
    ∧ (system sampleConfig asciiUnicode).Run sampleState ts s
    ∧ ∃ t ∈ ts, Ended t.source.db 1 ∧ t.target.db.pagesOf 1 ≠ t.source.db.pagesOf 1
  := by
  have hsome : ((system sampleConfig asciiUnicode).execute (fun _ => true) sampleState
      (latePage failingTools)).isSome = true := by
    decide +kernel
  have hnone : ((system sampleConfig asciiUnicode).execute (fun t => decide (Ended t.source.db 1 →
      t.target.db.pagesOf 1 = t.source.db.pagesOf 1)) sampleState (latePage failingTools)).isNone
        = true := by
    decide +kernel
  obtain ⟨s, hs⟩ := Option.isSome_iff_exists.mp hsome
  obtain ⟨ts, hrun, t, ht, hchanges⟩ :=
    TransitionSystem.exists_failing_of_execute hs (Option.isNone_iff_eq_none.mp hnone)
  exact ⟨ts, s, ⟨rfl, rfl, rfl, rfl⟩, hrun, t, ht,
    by simpa [Classical.not_imp] using of_decide_eq_false hchanges⟩

end OcrWorker

end DocuAI
