import DocuAI.Backend.Listing
import DocuAI.Backend.References
import DocuAI.Ocr.Superseded

/-!
# Reading the results of a job

The text of a document comes in pages of pages, each of which is a query of its own, and between two
queries the backend goes on: other jobs run, documents are removed, and late workers still send what
they have.  A job whose results are answered is terminal, so that the answers fit together as long as
the late workers repeat what is stored (`results_fit_together`).
-/

namespace DocuAI

namespace Backend

open OcrWorker (Ended)

variable {config : AppConfig} {unicode : Unicode} {hashtext : ℕ → ℕ} {s s' : State config}

/-! ### What a step makes of the pages -/

/-- The step is the next statement of a worker process. -/
def advances (processId : ℕ) : Label → Bool
  | .ocr (.worker a) => a.advances processId
  | _ => false

/-- Once the job is terminal, its processes store only pages that are stored already. -/
def RepeatsWhenEnded (jobId : ℕ) (t : Transition (State config) Label) : Prop :=
  Ended t.source.tables.toDatabase jobId → ∀ q ∈ t.source.processes.rows, q.jobId = jobId →
    advances q.id t.label = true → q.phase.Repeats t.source.tables.toDatabase jobId

instance (jobId : ℕ) (t : Transition (State config) Label) : Decidable (RepeatsWhenEnded jobId t) :=
  inferInstanceAs (Decidable (_ → ∀ q ∈ t.source.processes.rows, _))

/-- A terminal job stays terminal, with the pages it has. -/
structure StaysRead (jobId : ℕ) (db db' : Database) : Prop where
  ended : Ended db' jobId
  pages : db'.pagesOf jobId = db.pagesOf jobId

/-- What leaves jobs and pages alone. -/
theorem StaysRead.of_same {jobId : ℕ} {db db' : Database} (hended : Ended db jobId)
    (hjobs : db'.ocrJobs = db.ocrJobs) (hpages : db'.ocrPages = db.ocrPages) :
  StaysRead jobId db db'
  := by
  constructor
  · rw [Ended, hjobs]
    exact hended
  · rw [Database.pagesOf, hpages, Database.pagesOf]

/-- A step of the workers. -/
theorem staysRead_of_worker {w w' : OcrWorker.State} {a : OcrWorker.Label} {jobId : ℕ}
    (h : OcrWorker.step config.ocr unicode w a = some w') (hended : Ended w.db jobId)
    (hrepeats : ∀ q ∈ w.processes.rows, q.jobId = jobId → a.advances q.id = true →
      q.phase.Repeats w.db jobId) :
  StaysRead jobId w.db w'.db
  := ⟨hended.step h, (OcrWorker.pagesOf_step_iff h).mpr hrepeats⟩

theorem staysRead_of_step {t : Transition (State config) Label} {jobId : ℕ}
    (hstep : (system config unicode hashtext).step t.source t.label = some t.target)
    (hrepeats : RepeatsWhenEnded jobId t) (hended : Ended t.source.tables.toDatabase jobId) :
  StaysRead jobId t.source.tables.toDatabase t.target.tables.toDatabase
  := by
  obtain ⟨source, label, target⟩ := t
  change Backend.step config unicode hashtext source label = some target at hstep
  have hlate := hrepeats hended
  simp only at hended hlate ⊢
  cases label with
  | tick ms =>
      obtain rfl := Option.some.inj hstep
      exact .of_same hended rfl rfl
  | folders a =>
      simp only [Backend.step] at hstep
      split at hstep
      · obtain ⟨part, -, hstep⟩ := Option.bind_eq_some_iff.mp hstep
        obtain rfl := Option.some.inj hstep
        exact .of_same hended rfl rfl
      · cases hstep
  | documents a =>
      simp only [Backend.step] at hstep
      split at hstep
      · obtain ⟨part, -, hstep⟩ := Option.bind_eq_some_iff.mp hstep
        obtain rfl := Option.some.inj hstep
        exact .of_same hended rfl rfl
      · cases hstep
  | ocr a =>
      simp only [Backend.step] at hstep
      split at hstep
      swap
      · cases hstep
      obtain ⟨part, hpart, hstep⟩ := Option.bind_eq_some_iff.mp hstep
      obtain rfl := Option.some.inj hstep
      cases OcrService.labelStep_of_step hpart with
      | worker ha hworker => exact staysRead_of_worker hworker hended hlate
      | calls hcreate => exact .of_same hended rfl rfl
      | goes hc hact => exact .of_same hended rfl rfl
      | commits hc hact hworker =>
          obtain ⟨-, -, id, language, createdAt, -, rfl⟩ := OcrService.commit_of_act hact
          apply staysRead_of_worker hworker hended
          rintro q - - ⟨⟩

/-- The pages of a terminal job stay as they are. -/
theorem pagesOf_of_run {ts : List (Transition (State config) Label)} {jobId : ℕ}
    (hrun : (system config unicode hashtext).Run s ts s')
    (hrepeats : ∀ t ∈ ts, RepeatsWhenEnded jobId t) (hended : Ended s.tables.toDatabase jobId) :
  s'.tables.toDatabase.pagesOf jobId = s.tables.toDatabase.pagesOf jobId
  := by
  have hstay : StaysRead jobId s.tables.toDatabase s'.tables.toDatabase := by
    apply hrun.invariant
      (I := fun state => StaysRead jobId s.tables.toDatabase state.tables.toDatabase) ⟨hended, rfl⟩
    intro t ht hstep h
    have hnext := staysRead_of_step hstep (hrepeats t ht) h.ended
    exact ⟨hnext.ended, hnext.pages.trans h.pages⟩
  exact hstay.pages

/-! ### Answers -/

/-- The answer to a query for the pages of a job: the job is terminal, and the answer is one page of
its pages by their numbers. -/
theorem results_eq_ok {db : Database} {userId documentId jobId page limit : ℕ}
    {answer : OcrResults}
    (h : OcrService.results db userId documentId ⟨page, limit, none, some jobId⟩ = .ok answer) :
  Ended db jobId
    ∧ answer.pages = pageOf page limit
      (orderBy (fun a b => compare a.pageNumber b.pageNumber) (db.pagesOf jobId))
    ∧ answer.pagination = pagination page limit (db.pagesOf jobId).length
  := by
  unfold OcrService.results at h
  cases howned : DocumentsService.getOwned db.documents userId documentId with
  | error error =>
      rw [howned] at h
      cases h
  | ok document =>
      cases hfound : OcrJobService.findOwned db jobId documentId userId with
      | none =>
          simp only [howned, hfound] at h
          cases h
      | some job =>
          obtain ⟨hjob, -⟩ := Option.filter_eq_some_iff.mp hfound
          obtain rfl := Table.key_of_find hjob
          have hpages : OcrJobService.pages db job.id ⟨page, limit, none, some job.id⟩
              = db.pagesOf job.id := by
            simp [OcrJobService.pages]
          simp only [howned, hfound] at h
          change (if job.status ∈ ACTIVE_OCR_STATUSES then _ else _) = _ at h
          split at h
          · cases h
          · rename_i hstatus
            obtain rfl := Except.ok.inj h
            refine ⟨⟨job, hjob, ?_⟩, ?_, ?_⟩
            · cases hcases : job.status <;> simp_all [ACTIVE_OCR_STATUSES, TERMINAL_OCR_STATUSES]
            · rw [hpages]
            · rw [hpages]

/-- The pages of a job have different numbers. -/
theorem nodup_pageNumber (db : Database) (jobId : ℕ) :
  ((db.pagesOf jobId).map OcrPage.pageNumber).Nodup
  := by
  have hkeys : ((db.pagesOf jobId).map OcrPage.key).Nodup :=
    db.ocrPages.nodup.sublist (List.filter_sublist.map _)
  have hmap : (db.pagesOf jobId).map OcrPage.key
      = ((db.pagesOf jobId).map OcrPage.pageNumber).map fun n => (jobId, n) := by
    rw [List.map_map]
    apply List.map_congr_left
    intro page hpage
    have hjob : page.ocrJobId = jobId := of_decide_eq_true (List.mem_filter.mp hpage).2
    rw [OcrPage.key, hjob]
    rfl
  rw [hmap] at hkeys
  exact hkeys.of_map

/-- The pages by their numbers, which tell them apart. -/
theorem pageNumbers_sorted (db : Database) (jobId : ℕ) :
  ((orderBy (fun a b => compare a.pageNumber b.pageNumber) (db.pagesOf jobId)).map
    OcrPage.pageNumber).Pairwise (· < ·)
  := by
  have hlawful : Std.TransCmp fun a b : OcrPage => compare a.pageNumber b.pageNumber :=
    inferInstanceAs (Std.TransCmp (compareOn OcrPage.pageNumber))
  have hsorted : SortedBy (fun a b : OcrPage => compare a.pageNumber b.pageNumber)
      (orderBy (fun a b => compare a.pageNumber b.pageNumber) (db.pagesOf jobId)) :=
    sortedBy_insertionSort _
  have hperm := List.perm_insertionSort
    (fun a b : OcrPage => compare a.pageNumber b.pageNumber ≠ .gt) (db.pagesOf jobId)
  have hnodup : ((orderBy (fun a b => compare a.pageNumber b.pageNumber)
      (db.pagesOf jobId)).map OcrPage.pageNumber).Nodup :=
    (hperm.map OcrPage.pageNumber).nodup_iff.mpr (nodup_pageNumber db jobId)
  rw [List.Nodup, List.pairwise_map] at hnodup
  rw [List.pairwise_map]
  refine (hsorted.and hnodup).imp ?_
  rintro a b ⟨hle, hne⟩
  rw [Nat.compare_ne_gt] at hle
  omega

/-- The answers to queries for the pages of one job, made at any times of a run, fit together: they
tell the same total, and in a row they are the pages of the job by increasing numbers, each once, and
nothing after them. -/
theorem results_fit_together {ts : List (Transition (State config) Label)}
    (hrun : (system config unicode hashtext).Run s ts s') {userId documentId jobId limit : ℕ}
    (hrepeats : ∀ t ∈ ts, RepeatsWhenEnded jobId t) (hlimit : 1 ≤ limit)
    {reads : ℕ → State config} (hreads : ∀ page, reads page = s ∨ ∃ t ∈ ts, t.target = reads page)
    {answers : ℕ → OcrResults}
    (hanswers : ∀ page, 1 ≤ page → OcrService.results (reads page).tables.toDatabase userId documentId
      ⟨page, limit, none, some jobId⟩ = .ok (answers page)) :
  ∃ totalPages,
    (∀ page, 1 ≤ page → (answers page).pagination =
      { page, limit, total := (s'.tables.toDatabase.pagesOf jobId).length, totalPages })
    ∧ ((List.range' 1 totalPages).flatMap fun page => (answers page).pages).Perm
      (s'.tables.toDatabase.pagesOf jobId)
    ∧ (((List.range' 1 totalPages).flatMap fun page => (answers page).pages).map
      OcrPage.pageNumber).Pairwise (· < ·)
    ∧ ∀ page, totalPages < page → (answers page).pages = []
  := by
  -- Whenever a query was answered, the job had the pages it has at the end.
  have hsame : ∀ page, 1 ≤ page → (reads page).tables.toDatabase.pagesOf jobId
      = s'.tables.toDatabase.pagesOf jobId := by
    intro page hpage
    obtain ⟨hended, -⟩ := results_eq_ok (hanswers page hpage)
    rcases hreads page with hstart | ⟨t, ht, htarget⟩
    · rw [hstart] at hended ⊢
      exact (pagesOf_of_run hrun hrepeats hended).symm
    · rw [← htarget] at hended ⊢
      obtain ⟨before, after, rfl, -, hafter⟩ := hrun.split_of_mem ht
      refine (pagesOf_of_run hafter (fun t' ht' => hrepeats t' ?_) hended).symm
      exact List.mem_append_right _ (List.mem_cons_of_mem _ ht')
  have hitems : ∀ page, 1 ≤ page → (answers page).pages = pageOf page limit
      (orderBy (fun a b => compare a.pageNumber b.pageNumber)
        (s'.tables.toDatabase.pagesOf jobId)) := by
    intro page hpage
    rw [(results_eq_ok (hanswers page hpage)).2.1, hsame page hpage]
  have hperm := List.perm_insertionSort
    (fun a b : OcrPage => compare a.pageNumber b.pageNumber ≠ .gt)
    (s'.tables.toDatabase.pagesOf jobId)
  have hlength : (orderBy (fun a b => compare a.pageNumber b.pageNumber)
      (s'.tables.toDatabase.pagesOf jobId)).length
        = (s'.tables.toDatabase.pagesOf jobId).length := hperm.length_eq
  have hpages := DocumentsService.flatMap_items hlimit hitems
  rw [hlength] at hpages
  refine ⟨pageCount limit (s'.tables.toDatabase.pagesOf jobId).length, ?_, ?_, ?_, ?_⟩
  · intro page hpage
    rw [(results_eq_ok (hanswers page hpage)).2.2, hsame page hpage]
    rfl
  · rw [hpages]
    exact hperm
  · rw [hpages]
    apply pageNumbers_sorted
  · intro page hpage
    rw [hitems page (Nat.lt_of_le_of_lt (Nat.zero_le _) hpage), pageOf]
    apply page_eq_nil hlimit
    rw [hlength]
    omega

/-! A job of two pages has been completed, and a late worker stores its first page once more. -/

def completedJob : OcrJob where
  id := 1
  documentId := 1
  userId := 7
  status := .COMPLETED
  language := js "eng"
  extractionMethod := some .NATIVE_TEXT
  totalPages := some 2
  processedPages := 2
  failedPages := 0
  errorCode := none
  errorMessage := none
  attemptCount := 2
  maxAttempts := 3
  heartbeatAt := some 0
  startedAt := some 0
  completedAt := some 0
  createdAt := 0

def nativePage (pageNumber : ℕ) : ExtractedPage where
  pageNumber := pageNumber
  status := .COMPLETED
  method := some .NATIVE_TEXT
  text := some (js "Text")
  confidence := none
  charCount := 4
  truncated := false
  errorCode := none

def lateWorker : OcrWorker.Process where
  id := 1
  jobId := 1
  phase := .yielded completedJob (nativePage 1) (.afterImage ⟨.image .jpeg, js "eng", 0, 1, 0⟩)
  timer := false
  attempt := 1
  lastBeat := 0

def lateState : State sampleConfig :=
  { sampleState with
    tables :=
      { sampleState.tables with
        documents := ⟨[DocumentsService.untitledDraft 1], by decide⟩
        ocrJobs := ⟨[completedJob], by decide⟩
        ocrPages :=
          ⟨[OcrJobService.pageRow 1 (nativePage 2), OcrJobService.pageRow 1 (nativePage 1)],
            by decide⟩ }
    processes := ⟨[lateWorker], by decide⟩ }

/-- The answer to the query for a page of one row. -/
def completedResults (page : ℕ) : OcrResults where
  job := completedJob
  pages := pageOf page 1
    [OcrJobService.pageRow 1 (nativePage 1), OcrJobService.pageRow 1 (nativePage 2)]
  pagination := pagination page 1 2

/-- The first page is read before the late worker stores, the others after it. -/
theorem results_fit_together_of_lateWorker :
  ∃ (ts : List (Transition (State sampleConfig) Label)) (s : State sampleConfig),
    (system sampleConfig asciiUnicode id).Run lateState ts s
    ∧ (∃ t ∈ ts, advances 1 t.label = true)
    ∧ ∃ totalPages,
      ((List.range' 1 totalPages).flatMap fun page => (completedResults page).pages).Perm
        (s.tables.toDatabase.pagesOf 1)
      ∧ ∀ page, totalPages < page → (completedResults page).pages = []
  := by
  have hsome : ((system sampleConfig asciiUnicode id).execute
      (fun t => decide (RepeatsWhenEnded 1 t)) lateState
        [.tick 5, .ocr (.worker (.process 1 .advance))]).any
      (fun s => s.tables.documents.rows = lateState.tables.documents.rows
        && s.tables.ocrJobs.rows = [completedJob]
        && s.tables.ocrPages.rows = lateState.tables.ocrPages.rows) = true := by
    decide +kernel
  obtain ⟨s, hs, hend⟩ := (Option.any_eq_true _ _).mp hsome
  obtain ⟨ts, hrun, hts, hlabels⟩ := TransitionSystem.run_of_execute_labels hs
  simp only [Bool.and_eq_true, decide_eq_true_eq] at hend
  obtain ⟨⟨hdocuments, hjobs⟩, hpages⟩ := hend
  have hlast : ∃ t ∈ ts, advances 1 t.label = true := by
    have hmem : (.ocr (.worker (.process 1 .advance)) : Label) ∈ ts.map Transition.label := by
      rw [hlabels]
      exact List.mem_cons_of_mem _ List.mem_cons_self
    obtain ⟨t, ht, hlabel⟩ := List.mem_map.mp hmem
    exact ⟨t, ht, by rw [hlabel]; rfl⟩
  obtain ⟨t, ht, htarget⟩ := hrun.exists_target (by rintro rfl; cases hlabels)
  have hsame : s.tables.toDatabase = lateState.tables.toDatabase := by
    generalize s.tables.toDatabase = db at hdocuments hjobs hpages
    obtain ⟨⟨jobs, _⟩, ⟨pages, _⟩, ⟨documents, _⟩⟩ := db
    subst hdocuments hjobs hpages
    rfl
  let reads : ℕ → State sampleConfig := fun page => if page = 1 then lateState else s
  have hreads : ∀ page, reads page = lateState ∨ ∃ t ∈ ts, t.target = reads page := by
    intro page
    simp only [reads]
    split
    · exact .inl rfl
    · exact .inr ⟨t, ht, htarget⟩
  have hanswers : ∀ page, 1 ≤ page → OcrService.results (reads page).tables.toDatabase 7 1
      ⟨page, 1, none, some 1⟩ = .ok (completedResults page) := by
    intro page _
    simp only [reads]
    split
    · rfl
    · rw [hsame]
      rfl
  obtain ⟨totalPages, -, hperm, -, hafter⟩ := results_fit_together hrun
    (fun t ht => of_decide_eq_true (hts t ht)) le_rfl hreads hanswers
  exact ⟨ts, s, hrun, hlast, totalPages, hperm, hafter⟩

end Backend

end DocuAI
