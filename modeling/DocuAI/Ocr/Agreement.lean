import DocuAI.Environment
import DocuAI.Ocr.Quota
import Mathlib.Algebra.Order.BigOperators.Group.List

/-!
# Agreement of identical requests

Requests for the text of one document in one language, made while the document has no job, agree on
a job: one of them creates it, and the others return it.

The job may be at any point of its processing when a request looks for it.  As long as it has not
failed, it is found active, or else found by its language, and so no second one is created
(`Follows`).  What the worker writes to the document keeps it acceptable for the requests to come
(`acceptable_of_step`).
-/

namespace DocuAI

/-! ### What the workers write -/

namespace OcrWorker

variable {config : OcrConfig} {unicode : Unicode}

/-- The files that have been inspected have no more pages than the limit. -/
def WithinPageLimit (config : OcrConfig) (s : State) : Prop :=
  ∀ q ∈ s.processes.rows, ∀ job document inspected, q.phase = .measured job document inspected →
    inspected.totalPages ≤ config.limits.maxPdfPages

/-- Every step inspects files within the limit. -/
theorem WithinPageLimit.step (hlimits : config.limits.Validated) {s s' : State} {a : Label}
    (h : WithinPageLimit config s) (hstep : step config unicode s a = some s') :
  WithinPageLimit config s'
  := by
  intro q hq job document inspected hphase
  cases processStep_of_step hstep hq with
  | stays hq => exact h q hq job document inspected hphase
  | delivered => cases hphase
  | @acts p action e hp _ hact _ =>
      change (e.next (e.reply config s)).phase = _ at hphase
      cases Process.moves_of_act hact with
      | inspects _ hinspect =>
          obtain ⟨-, -, rfl⟩ := Phase.measured.inj hphase
          have hle := (totalPages_of_inspect hinspect).2
          rwa [max_eq_right hlimits.maxPdfPages.1] at hle
      | beats => exact h p hp job document inspected hphase
      | @loads loaded =>
          have hload : Process.load config s.db loaded ≠ .measured job document inspected := by
            apply Process.load_cases
              (motive := fun phase => phase ≠ .measured job document inspected)
            · rintro ⟨⟩
            · rintro ⟨⟩
            · rintro _ ⟨⟩
          exact absurd hphase hload
      | claims =>
          simp only at hphase
          split at hphase <;> cases hphase
      | _ => cases hphase

/-- A number of pages is recorded by a process that has inspected the file. -/
theorem totalPages_le_of_write {s : State} {a : Label} {jobId documentId totalPages : ℕ}
    (h : WithinPageLimit config s)
    (hwrite : a.write config unicode s = some (.setTotalPages jobId documentId totalPages)) :
  totalPages ≤ config.limits.maxPdfPages
  := by
  rcases origin_of_write hwrite with ⟨q, hq, action, next, -, hact⟩ | ⟨r, -, job, -, readAt, -, hw⟩
  · cases Process.moves_of_act hact with
    | measures hphase => exact h q hq _ _ _ hphase
    | handles _ hw =>
        unfold Process.handleFailure at hw
        simp only at hw
        split at hw <;> cases hw
  · unfold Reconciler.write at hw
    split at hw <;> cases hw

/-- A file that has been inspected is within the limit in every run. -/
theorem withinPageLimit_of_run (hlimits : config.limits.Validated) {s₀ s : State}
    {ts : List (Transition State Label)} (hrun : (system config unicode).Run s₀ ts s)
    (hinit : (system config unicode).init s₀) :
  WithinPageLimit config s
  := by
  apply hrun.invariant (I := WithinPageLimit config)
  · intro q hq
    rw [hinit.2.2.1] at hq
    cases hq
  · intro t _ hstep h
    exact h.step hlimits hstep

/-- What a step that inserts no job makes of the jobs: it renames none, and changes no language. -/
theorem jobs_of_step {s s' : State} {a : Label} (h : step config unicode s a = some s')
    (ha : a.createsJob = false) :
  ∃ f, OcrService.Keeps f ∧ (∀ job, (f job).id = job.id ∧ (f job).language = job.language)
    ∧ s'.db.ocrJobs.rows = s.db.ocrJobs.rows.map f
  := by
  generalize s'.db = db', databaseStep_of_step h = hdb
  cases hdb with
  | same hjobs => exact ⟨id, .id, fun _ => ⟨rfl, rfl⟩, by rw [hjobs, List.map_id]⟩
  | create hcreates =>
      rw [ha] at hcreates
      cases hcreates
  | write w =>
      refine ⟨_, OcrService.keeps_write w config.staleJobMs s.now s.db, ?_, ?_⟩
      · intro job
        refine ⟨Update.key_apply _ job, ?_⟩
        have hdata : ((w.update config.staleJobMs s.now s.db).data job).language
            = job.language := by
          cases w <;> rfl
        unfold Update.apply
        split
        · exact hdata
        · rfl
      · rw [Write.perform_ocrJobs, Table.rows_updateMany]

end OcrWorker

namespace OcrService

variable {config : OcrConfig} {unicode : Unicode} {hashtext : ℕ → ℕ}

/-- The document belongs to the user, and its file can be processed. -/
def Acceptable (config : OcrConfig) (db : Database) (userId documentId : ℕ) : Prop :=
  ∃ document, DocumentsService.getOwned db.documents userId documentId = .ok document
    ∧ assertProcessable config document = .ok ()

/-- Recording an admissible number of pages leaves a document processable. -/
theorem assertProcessable_measured {document : Document} {totalPages updatedAt : ℕ}
    (hle : totalPages ≤ config.limits.maxPdfPages)
    (h : assertProcessable config document = .ok ()) :
  assertProcessable config { document with pageCount := some totalPages, updatedAt } = .ok ()
  := by
  unfold assertProcessable at h ⊢
  split at h
  · rename_i mimeType hstatus hkey hmime
    simp only [hstatus, hkey, hmime]
    split at h
    · cases h
    · rename_i hsupported
      rw [if_neg hsupported]
      split at h
      · cases h
      · rename_i hsize
        rw [if_neg hsize, if_neg]
        simpa using hle
  · cases h

/-- A write leaves the row of a live document, but for the number of its pages. -/
theorem find_document_perform (w : Write) {staleMs now documentId : ℕ} {db : Database}
    {document : Document} (hfind : db.documents.find documentId = some document)
    (hlive : document.deletedAt = none) :
  (w.perform staleMs now db).1.documents.find documentId = some document
    ∨ ∃ jobId totalPages, w = .setTotalPages jobId documentId totalPages
      ∧ (w.perform staleMs now db).1.documents.find documentId
        = some { document with pageCount := some totalPages, updatedAt := now }
  := by
  cases w with
  | setTotalPages jobId measuredId totalPages =>
      simp only [Write.perform, OcrJobService.setTotalPages, Table.find_updateMany_on]
      by_cases hid : documentId = measuredId
      · subst hid
        refine .inr ⟨jobId, totalPages, rfl, ?_⟩
        rw [if_pos rfl, hfind, Option.map_some, Update.apply_of_guard]
        simp [hlive]
      · rw [if_neg hid]
        exact .inl hfind
  | finalize jobId =>
      simp only [Write.perform, OcrJobService.finalize]
      split <;> exact .inl hfind
  | _ => exact .inl hfind

/-- What the workers write leaves the document acceptable. -/
theorem acceptable_of_step {s s' : OcrWorker.State} {a : OcrWorker.Label} {userId documentId : ℕ}
    (h : OcrWorker.step config unicode s a = some s')
    (hlimit : OcrWorker.WithinPageLimit config s)
    (hother : ∀ document, a = .writeDocument document → document.id ≠ documentId)
    (hacceptable : Acceptable config s.db userId documentId) :
  Acceptable config s'.db userId documentId
  := by
  obtain ⟨document, hdocument, hprocessable⟩ := hacceptable
  obtain ⟨hfind, huser, hlive⟩ := DocumentsService.getOwned_eq_ok_iff.mp hdocument
  have hsame (hfind' : s'.db.documents.find documentId = some document) :
      Acceptable config s'.db userId documentId :=
    ⟨document, DocumentsService.getOwned_eq_ok_iff.mpr ⟨hfind', huser, hlive⟩, hprocessable⟩
  rcases OcrWorker.database_of_step h with ⟨w, hw, hdb⟩ | ⟨-, -, hdocuments | ⟨other, rfl⟩, -⟩
  · rcases find_document_perform w hfind hlive with hfind' | ⟨jobId, totalPages, rfl, hfind'⟩
    · apply hsame
      rw [hdb]
      exact hfind'
    · have hle := OcrWorker.totalPages_le_of_write hlimit hw
      refine ⟨{ document with pageCount := some totalPages, updatedAt := s.now },
        DocumentsService.getOwned_eq_ok_iff.mpr ⟨?_, huser, hlive⟩,
        assertProcessable_measured hle hprocessable⟩
      rw [hdb]
      exact hfind'
  · apply hsame
    rw [hdocuments]
    exact hfind
  · apply hsame
    cases OcrWorker.moves_of_step h
    simp only [Table.find_put]
    rw [if_neg (Ne.symm (hother other rfl))]
    exact hfind

/-! ### Identical requests -/

def Phase.ended : Phase → Bool
  | .returned _ | .rejected => true
  | _ => false

/-- The call has returned the job, with the outcome. -/
def Call.Returns (c : Call) (outcome : OcrRequestOutcome) (jobId : ℕ) : Prop :=
  ∃ job : OcrJob, c.phase = .returned (.ok ⟨job, outcome⟩) ∧ job.id = jobId

/-- One of the calls has returned the job it created, and the others the same one. -/
def Agree (calls : List Call) : Prop :=
  ∃ jobId, ∃ c ∈ calls, c.Returns .created jobId
    ∧ ∀ c' ∈ calls, c' ≠ c → c'.Returns .active jobId ∨ c'.Returns .existing jobId

/-- The calls made since an earlier state. -/
def newCalls (s₀ s : State) : List Call :=
  s.calls.rows.filter (· ∉ s₀.calls.rows)

/-- The state the requests start from: no call is under way, the document of the user is READY and
has no job, and the user may have one more. -/
structure Ready (config : OcrConfig) (userId documentId : ℕ) (s : State) : Prop where
  idle : ∀ c ∈ s.calls.rows, c.phase.ended = true
  owned : ∃ document, document.status = .READY
    ∧ DocumentsService.getOwned s.worker.db.documents userId documentId = .ok document
  noJob : s.worker.db.jobsOf documentId = []
  quota : OcrJobService.countActiveForUser s.worker.db userId < config.limits.maxActiveJobsPerUser

/-- The call requests the text of the document in the language. -/
def Requests (config : OcrConfig) (language : JsString) (operation : Operation) : Prop :=
  ∃ dto available, operation = .request dto ∧ dto.forceReprocess ≠ some true
    ∧ OcrLanguagesService.resolve config available dto.language = .ok language

/-- The transition is one of a worker, of a reconciler or of the queue, or belongs to a request of
the user for the document. -/
structure Identical (config : OcrConfig) (userId documentId : ℕ) (language : JsString)
    (t : Transition State Label) : Prop where
  requests : ∀ id userId' documentId' operation,
    t.label = .call id userId' documentId' operation →
      userId' = userId ∧ documentId' = documentId ∧ Requests config language operation
  /-- The requests resolve to the language. -/
  resolves : ∀ callId available, t.label = .step callId (.resolve available) → ∀ c dto,
    t.source.calls.find callId = some c → c.operation = .request dto →
      OcrLanguagesService.resolve config available dto.language = .ok language
  /-- Generated ids are new. -/
  generated : ∀ callId id createdAt, t.label = .step callId (.create id createdAt) →
    t.source.worker.db.ocrJobs.find id = none
  succeeds : ∀ callId, t.label ≠ .step callId .throw
  /-- Nobody else changes the document. -/
  document : ∀ document, t.label = .worker (.writeDocument document) → document.id ≠ documentId
  /-- No job of the document ends FAILED or CANCELLED. -/
  unfailed : ∀ job ∈ t.target.worker.db.jobsOf documentId,
    job.status ≠ .FAILED ∧ job.status ≠ .CANCELLED

/-! ### What a request finds -/

section

variable {db : Database} {documentId userId : ℕ} {language : JsString} {job : OcrJob}

/-- Of a document without jobs nothing is found. -/
theorem queries_of_no_job (h : db.jobsOf documentId = []) (language : JsString) :
  OcrJobService.activeForDocument db documentId = none
    ∧ OcrJobService.latestForLanguage db documentId language = none
    ∧ OcrJobService.countForDocument db documentId = 0
  := by
  simp [OcrJobService.activeForDocument, OcrJobService.latestForLanguage,
    OcrJobService.countForDocument, OcrJobService.findLatest, h]

/-- The only job of a document is found while it is active. -/
theorem activeForDocument_of_one (h : db.jobsOf documentId = [job]) :
  OcrJobService.activeForDocument db documentId
    = if job.status ∈ ACTIVE_OCR_STATUSES then some job else none
  := by
  unfold OcrJobService.activeForDocument OcrJobService.findLatest
  rw [h, List.filter_singleton]
  split <;> simp_all

/-- The only job of a document is found by its language. -/
theorem latestForLanguage_of_one (h : db.jobsOf documentId = [job])
    (hlanguage : job.language = language) :
  OcrJobService.latestForLanguage db documentId language = some job
  := by
  unfold OcrJobService.latestForLanguage OcrJobService.findLatest
  rw [h, List.filter_singleton]
  simp [hlanguage]

end

/-- What the phase of a request says about its document. -/
def Phase.Follows (config : OcrConfig) (db : Database) (documentId : ℕ) (language : JsString)
    (operation : Operation) : Phase → Prop
  | .called => True
  | .owned document dto => operation = .request dto ∧ assertProcessable config document = .ok ()
  | .waiting goal | .locked goal => goal = .request language false
  | .searching language' => language' = language ∧ Clear db documentId
  | .counting language' | .counted language' | .admitted language' =>
      language' = language ∧ db.jobsOf documentId = []
  | .inserted id language' _ =>
      language' = language ∧ db.jobsOf documentId = [] ∧ db.ocrJobs.find id = none
  | .returned result => ∃ r job, result = .ok r ∧ db.jobsOf documentId = [job] ∧ r.job.id = job.id
  | .resolving _ | .rejected => False

/-- A request of the user for the document in the language. -/
structure Call.Follows (config : OcrConfig) (userId documentId : ℕ) (language : JsString)
    (db : Database) (c : Call) : Prop where
  user : c.userId = userId
  document : c.documentId = documentId
  requests : Requests config language c.operation
  phase : c.phase.Follows config db documentId language c.operation

/-- The document is acceptable, and what jobs it has: none, or one in the language. -/
structure Offers (config : OcrConfig) (userId documentId : ℕ) (language : JsString)
    (db : Database) : Prop where
  acceptable : Acceptable config db userId documentId
  jobs : db.jobsOf documentId = [] ∨ ∃ job, db.jobsOf documentId = [job] ∧ job.language = language
    ∧ job.status ≠ .FAILED ∧ job.status ≠ .CANCELLED
  quota : db.jobsOf documentId = [] →
    OcrJobService.countActiveForUser db userId < config.limits.maxActiveJobsPerUser

section

variable {s s' : State} {c : Call} {userId documentId : ℕ} {language : JsString}

/-- A call that has ended takes no step. -/
theorem Call.act_of_ended {action : Action} (h : c.phase.ended = true) :
  c.act config hashtext s action = none
  := by
  cases hphase : c.phase with
  | returned | rejected => cases action <;> simp only [act, advance, hphase]
  | _ => simp [Phase.ended, hphase] at h

/-- A step of a request: it goes on, returns the job of the document, or commits the first one. -/
inductive Call.Proceeds (config : OcrConfig) (db : Database) (documentId : ℕ) (language : JsString)
    (c : Call) : Effect → Prop where
  | goes {phase : Phase} (hphase : phase.Follows config db documentId language c.operation)
      (hopen : phase.ended = false) : Proceeds config db documentId language c ⟨phase, none⟩
  | returns {job : OcrJob} {outcome : OcrRequestOutcome} (hjob : db.jobsOf documentId = [job])
      (houtcome : outcome ≠ .created) :
      Proceeds config db documentId language c ⟨.returned (.ok ⟨job, outcome⟩), none⟩
  | commits {id createdAt : ℕ} (hnone : db.jobsOf documentId = [])
      (hphase : c.phase = .inserted id language createdAt) :
      Proceeds config db documentId language c
        ⟨.returned (.ok ⟨createdJob config id c.userId c.documentId language createdAt, .created⟩),
          some (.createJob id c.userId c.documentId language createdAt)⟩

theorem Call.proceeds_of_advance (henabled : config.enabled = true)
    (hlimits : config.limits.Validated)
    (hoffers : Offers config userId documentId language s.worker.db)
    (hfollows : c.Follows config userId documentId language s.worker.db) {e : Effect}
    (h : c.advance config hashtext s = some e) :
  c.Proceeds config s.worker.db documentId language e
  := by
  obtain ⟨rfl, rfl, ⟨dto, available, hoperation, hforce, hresolve⟩, hphase⟩ := hfollows
  unfold advance at h
  cases hc : c.phase with
  | called =>
      obtain ⟨document, hdocument, hprocessable⟩ := hoffers.acceptable
      simp only [hc, henabled, hdocument, hoperation, Bool.not_true, Bool.false_eq_true,
        if_false] at h
      obtain rfl := Option.some.inj h
      exact .goes ⟨hoperation, hprocessable⟩ rfl
  | waiting goal =>
      simp only [hc] at h
      rw [hc] at hphase
      split at h
      · obtain rfl := Option.some.inj h
        exact .goes hphase rfl
      · cases h
  | locked goal =>
      rw [hc] at hphase
      obtain rfl : goal = .request language false := hphase
      simp only [hc] at h
      rcases hoffers.jobs with hnone | ⟨job, hjob, hlanguage, -, -⟩
      · simp only [(queries_of_no_job hnone language).1] at h
        obtain rfl := Option.some.inj h
        refine .goes ⟨rfl, ?_⟩ rfl
        simp [Clear, hnone]
      · rw [activeForDocument_of_one hjob] at h
        by_cases hactive : job.status ∈ ACTIVE_OCR_STATUSES
        · simp only [if_pos hactive, hlanguage, if_true] at h
          obtain rfl := Option.some.inj h
          exact .returns hjob nofun
        · simp only [if_neg hactive] at h
          obtain rfl := Option.some.inj h
          refine .goes ⟨rfl, ?_⟩ rfl
          intro other hother
          rw [hjob, List.mem_singleton] at hother
          rw [hother]
          exact (mem_terminal_iff job.status).mpr hactive
  | searching language' =>
      rw [hc] at hphase
      obtain ⟨rfl, hclear⟩ := hphase
      simp only [hc] at h
      rcases hoffers.jobs with hnone | ⟨job, hjob, hlanguage, hfailed, hcancelled⟩
      · simp only [(queries_of_no_job hnone language').2.1] at h
        obtain rfl := Option.some.inj h
        exact .goes ⟨rfl, hnone⟩ rfl
      · have hterminal : job.status ∈ TERMINAL_OCR_STATUSES := by
          apply hclear
          rw [hjob]
          exact List.mem_cons_self
        have hdone : job.status = .COMPLETED ∨ job.status = .PARTIAL := by
          revert hterminal hfailed hcancelled
          cases job.status <;> decide
        simp only [latestForLanguage_of_one hjob hlanguage, if_pos hdone] at h
        obtain rfl := Option.some.inj h
        exact .returns hjob nofun
  | counting language' =>
      rw [hc] at hphase
      simp only [hc] at h
      rw [if_neg (Nat.not_le_of_lt (hoffers.quota hphase.2))] at h
      obtain rfl := Option.some.inj h
      exact .goes hphase rfl
  | counted language' =>
      rw [hc] at hphase
      have hcount := (queries_of_no_job hphase.2 language).2.2
      have hbelow : ¬ config.limits.maxJobsPerDocument
          ≤ OcrJobService.countForDocument s.worker.db c.documentId := by
        rw [hcount]
        exact Nat.not_le_of_lt hlimits.maxJobsPerDocument
      simp only [hc] at h
      rw [if_neg hbelow] at h
      obtain rfl := Option.some.inj h
      exact .goes hphase rfl
  | inserted id language' createdAt =>
      rw [hc] at hphase
      obtain ⟨rfl, hnone, -⟩ := hphase
      simp only [hc] at h
      obtain rfl := Option.some.inj h
      exact .commits hnone hc
  | _ => simp [hc] at h

/-- Every step of a request is one of these. -/
theorem Call.proceeds_of_act (henabled : config.enabled = true)
    (hlimits : config.limits.Validated)
    (hoffers : Offers config userId documentId language s.worker.db)
    (hfollows : c.Follows config userId documentId language s.worker.db)
    (hfind : s.calls.find c.id = some c) {action : Action}
    (hidentical : Identical config userId documentId language ⟨s, .step c.id action, s'⟩)
    {e : Effect} (h : c.act config hashtext s action = some e) :
  c.Proceeds config s.worker.db documentId language e
  := by
  cases action with
  | advance => exact proceeds_of_advance henabled hlimits hoffers hfollows h
  | resolve available =>
      have hphase := hfollows.phase
      simp only [act] at h
      split at h
      · rename_i document dto hc
        rw [hc] at hphase
        obtain ⟨hoperation, hprocessable⟩ := hphase
        have hresolve := hidentical.resolves c.id available rfl c dto hfind hoperation
        obtain ⟨dto', -, hrequest, hforce, -⟩ := hfollows.requests
        obtain rfl : dto = dto' := by
          rw [hoperation] at hrequest
          exact Operation.request.inj hrequest
        simp only [hresolve, hprocessable, hforce, decide_false] at h
        obtain rfl := Option.some.inj h
        exact .goes rfl rfl
      · rename_i hc
        rw [hc] at hphase
        cases hphase
      · cases h
  | create id createdAt =>
      have hphase := hfollows.phase
      simp only [act] at h
      split at h
      · rename_i language' hc
        rw [hc] at hphase
        obtain rfl := Option.some.inj h
        exact .goes ⟨hphase.1, hphase.2, hidentical.generated c.id id createdAt rfl⟩ rfl
      · cases h
  | throw => exact absurd rfl (hidentical.succeeds c.id)

/-! ### The invariant -/

/-- Changes that keep the jobs keep what a request knows. -/
theorem Phase.Follows.map {db db' : Database} {f : OcrJob → OcrJob} (hf : Keeps f)
    (hid : ∀ job, (f job).id = job.id) (hrows : db'.ocrJobs.rows = db.ocrJobs.rows.map f)
    {operation : Operation} {phase : Phase}
    (h : phase.Follows config db documentId language operation) :
  phase.Follows config db' documentId language operation
  := by
  have hjobs := jobsOf_map hf hrows documentId
  have hnone (h : db.jobsOf documentId = []) : db'.jobsOf documentId = [] := by
    rw [hjobs, h, List.map_nil]
  cases phase with
  | called | owned | waiting | locked | resolving | rejected => exact h
  | searching => exact ⟨h.1, Clear.map hf hjobs h.2⟩
  | counting | counted | admitted => exact ⟨h.1, hnone h.2⟩
  | inserted id language' createdAt =>
      refine ⟨h.1, hnone h.2.1, ?_⟩
      have hfind := h.2.2
      rw [Table.find_eq_none_iff] at hfind ⊢
      rw [hrows, List.map_map]
      simpa [Function.comp_def, hid] using hfind
  | returned result =>
      obtain ⟨r, job, hresult, hjob, hr⟩ := h
      refine ⟨r, f job, hresult, ?_, ?_⟩
      · rw [hjobs, hjob, List.map_singleton]
      · rw [hid, hr]

/-- The invariant of requests for one document in one language. -/
structure Agreeing (config : OcrConfig) (hashtext : ℕ → ℕ) (userId documentId : ℕ)
    (language : JsString) (old : List Call) (s : State) : Prop where
  limit : OcrWorker.WithinPageLimit config s.worker
  offers : Offers config userId documentId language s.worker.db
  exclusive : Exclusive hashtext s.calls
  kept : old ⊆ s.calls.rows
  calls : ∀ c ∈ s.calls.rows, c ∉ old → c.Follows config userId documentId language s.worker.db
  /-- The job of the document was created by one of the requests. -/
  creator : ∀ job, s.worker.db.jobsOf documentId = [job] →
    ∃ c ∈ s.calls.rows, c ∉ old ∧ c.Returns .created job.id
      ∧ ∀ c' ∈ s.calls.rows, c' ∉ old → c' ≠ c → ∀ jobId, ¬c'.Returns .created jobId

theorem Call.not_returns_of_open {outcome : OcrRequestOutcome} {jobId : ℕ}
    (h : c.phase.ended = false) :
  ¬c.Returns outcome jobId
  := by
  rintro ⟨job, hphase, -⟩
  rw [hphase] at h
  cases h

/-- A request that has ended has found the job of the document. -/
theorem Call.Follows.open_of_no_job {db : Database}
    (h : c.Follows config userId documentId language db) (hnone : db.jobsOf documentId = []) :
  c.phase.ended = false
  := by
  have hphase := h.phase
  cases hc : c.phase with
  | returned result =>
      rw [hc] at hphase
      obtain ⟨r, job, -, hjob, -⟩ := hphase
      rw [hnone] at hjob
      cases hjob
  | rejected =>
      rw [hc] at hphase
      cases hphase
  | _ => rfl

theorem agreeing_worker (hlimits : config.limits.Validated) {old : List Call}
    (h : Agreeing config hashtext userId documentId language old s) {a : OcrWorker.Label}
    {worker : OcrWorker.State} (ha : a.createsJob = false)
    (hstep : OcrWorker.step config unicode s.worker a = some worker)
    (hidentical : Identical config userId documentId language
      ⟨s, .worker a, { s with worker }⟩) :
  Agreeing config hashtext userId documentId language old { s with worker }
  := by
  obtain ⟨f, hf, hkept, hrows⟩ := OcrWorker.jobs_of_step hstep ha
  have hjobs := jobsOf_map hf hrows documentId
  refine ⟨h.limit.step hlimits hstep, ⟨?_, ?_, ?_⟩, h.exclusive, h.kept, ?_, ?_⟩
  · apply acceptable_of_step hstep h.limit _ h.offers.acceptable
    intro document hwrite
    apply hidentical.document document
    rw [hwrite]
  · have hunfailed := hidentical.unfailed
    change ∀ job ∈ worker.db.jobsOf documentId, _ at hunfailed
    rcases h.offers.jobs with hnone | ⟨job, hjob, hlanguage, -⟩
    · refine .inl ?_
      rw [hjobs, hnone, List.map_nil]
    · rw [hjob, List.map_singleton] at hjobs
      refine .inr ⟨f job, hjobs, ?_, ?_⟩
      · rw [(hkept job).2, hlanguage]
      · apply hunfailed
        rw [hjobs]
        exact List.mem_cons_self
  · intro hnone
    rw [hjobs, List.map_eq_nil_iff] at hnone
    exact Nat.lt_of_le_of_lt (countActive_map hf hrows userId) (h.offers.quota hnone)
  · intro c hc hnew
    have hfollows := h.calls c hc hnew
    exact ⟨hfollows.user, hfollows.document, hfollows.requests,
      hfollows.phase.map hf (fun job => (hkept job).1) hrows⟩
  · intro job' hjob'
    change worker.db.jobsOf documentId = [job'] at hjob'
    rw [hjobs, List.map_eq_singleton_iff] at hjob'
    obtain ⟨job, hjob, rfl⟩ := hjob'
    rw [(hkept job).1]
    exact h.creator job hjob

theorem agreeing_call {old : List Call}
    (h : Agreeing config hashtext userId documentId language old s) {d : Call}
    {calls : Table Call.id} (hcreate : s.calls.create d = some calls) (hphase : d.phase = .called)
    (huser : d.userId = userId) (hdocument : d.documentId = documentId)
    (hrequests : Requests config language d.operation) :
  Agreeing config hashtext userId documentId language old { s with calls }
  := by
  have hcases {c : Call} (hc : c ∈ calls.rows) : c ∈ s.calls.rows ∨ c = d := by
    rw [Table.rows_of_create hcreate, List.mem_append, List.mem_singleton] at hc
    exact hc
  have hopen : d.phase.ended = false := by rw [hphase]; rfl
  refine ⟨h.limit, h.offers, ?_, ?_, ?_, ?_⟩
  · intro c hc c' hc' hlocks hlocks' heq
    rcases hcases hc with hc | rfl
    · rcases hcases hc' with hc' | rfl
      · exact h.exclusive c hc c' hc' hlocks hlocks' heq
      · rw [hphase] at hlocks'
        cases hlocks'
    · rw [hphase] at hlocks
      cases hlocks
  · change old ⊆ calls.rows
    rw [Table.rows_of_create hcreate]
    exact List.subset_append_of_subset_left _ h.kept
  · intro c hc hnew
    rcases hcases hc with hc | rfl
    · exact h.calls c hc hnew
    · refine ⟨huser, hdocument, hrequests, ?_⟩
      rw [hphase]
      trivial
  · intro job hjob
    obtain ⟨c, hc, hnew, hreturns, hothers⟩ := h.creator job hjob
    refine ⟨c, ?_, hnew, hreturns, ?_⟩
    · change c ∈ calls.rows
      rw [Table.rows_of_create hcreate]
      exact List.mem_append_left _ hc
    · intro c' hc' hnew' hne
      rcases hcases hc' with hc' | rfl
      · exact hothers c' hc' hnew' hne
      · exact fun _ => Call.not_returns_of_open hopen

/-- A request that takes a step is outstanding, and not one of the calls from before. -/
theorem Agreeing.new_of_act {old : List Call} (hold : ∀ c ∈ old, c.phase.ended = true)
    (h : Agreeing config hashtext userId documentId language old s)
    (hfind : s.calls.find c.id = some c) {action : Action} {e : Effect}
    (hact : c.act config hashtext s action = some e) :
  c.phase.ended = false ∧ ∀ phase, ({ c with phase } : Call) ∉ old
  := by
  have hopen : c.phase.ended = false := by
    rw [← Bool.not_eq_true]
    intro hended
    rw [Call.act_of_ended hended] at hact
    cases hact
  refine ⟨hopen, ?_⟩
  intro phase hmem
  have hsame : ({ c with phase } : Call) = c :=
    List.inj_on_of_nodup_map s.calls.nodup (h.kept hmem) (Table.mem_of_find hfind) rfl
  rw [hsame] at hmem
  rw [hold c hmem] at hopen
  cases hopen

theorem Agreeing.kept_put {old : List Call} (hold : ∀ c ∈ old, c.phase.ended = true)
    (h : Agreeing config hashtext userId documentId language old s)
    (hfind : s.calls.find c.id = some c) (hopen : c.phase.ended = false) (phase : Phase) :
  old ⊆ (s.calls.put { c with phase }).rows
  := by
  intro d hd
  refine Table.mem_rows_put_iff.mpr (.inr ⟨h.kept hd, ?_⟩)
  intro hid
  change d.id = c.id at hid
  obtain rfl : d = c :=
    List.inj_on_of_nodup_map s.calls.nodup (h.kept hd) (Table.mem_of_find hfind) hid
  rw [hold d hd] at hopen
  cases hopen

/-- A step of a request that commits nothing keeps the invariant. -/
theorem agreeing_quiet {old : List Call} (hold : ∀ c ∈ old, c.phase.ended = true)
    (h : Agreeing config hashtext userId documentId language old s)
    (hfind : s.calls.find c.id = some c) {action : Action} {phase : Phase}
    (hact : c.act config hashtext s action = some ⟨phase, none⟩)
    (hproceeds : c.Proceeds config s.worker.db documentId language ⟨phase, none⟩) :
  Agreeing config hashtext userId documentId language old
    { s with calls := s.calls.put { c with phase } }
  := by
  have hc := Table.mem_of_find hfind
  obtain ⟨hopen, hnew⟩ := h.new_of_act hold hfind hact
  have hfollows := h.calls c hc (hnew c.phase)
  have hphase : phase.Follows config s.worker.db documentId language c.operation := by
    cases hproceeds with
    | goes hphase => exact hphase
    | @returns job outcome hjob => exact ⟨_, job, rfl, hjob, rfl⟩
  have hnot (jobId : ℕ) : ¬({ c with phase } : Call).Returns .created jobId := by
    rintro ⟨job, hreturned, -⟩
    change phase = _ at hreturned
    subst hreturned
    cases hproceeds with
    | goes _ hopen => cases hopen
    | returns _ houtcome => exact houtcome rfl
  refine ⟨h.limit, h.offers, h.exclusive.put hfind ?_, h.kept_put hold hfind hopen phase, ?_, ?_⟩
  · exact locks_of_acts (Call.act_acts hact)
  · intro c' hc' hnew'
    rcases Table.mem_rows_put_iff.mp hc' with rfl | ⟨hc', -⟩
    · exact ⟨hfollows.user, hfollows.document, hfollows.requests, hphase⟩
    · exact h.calls c' hc' hnew'
  · intro job hjob
    obtain ⟨creator, hcreator, hcreatorNew, hreturns, hothers⟩ := h.creator job hjob
    have hne : creator.id ≠ c.id := by
      intro hid
      obtain rfl := List.inj_on_of_nodup_map s.calls.nodup hcreator hc hid
      exact Call.not_returns_of_open hopen hreturns
    refine ⟨creator, Table.mem_rows_put_iff.mpr (.inr ⟨hcreator, hne⟩), hcreatorNew, hreturns, ?_⟩
    intro c' hc' hnew' hne'
    rcases Table.mem_rows_put_iff.mp hc' with rfl | ⟨hc', -⟩
    · exact hnot
    · exact hothers c' hc' hnew' hne'

/-- The commit of the first job keeps the invariant. -/
theorem agreeing_commit (hlimits : config.limits.Validated) {old : List Call}
    (hold : ∀ c ∈ old, c.phase.ended = true)
    (h : Agreeing config hashtext userId documentId language old s)
    (hfind : s.calls.find c.id = some c) (hnew : ∀ phase, ({ c with phase } : Call) ∉ old)
    {id createdAt : ℕ} (hphase : c.phase = .inserted id language createdAt)
    (hnone : s.worker.db.jobsOf documentId = []) {worker : OcrWorker.State}
    (hstep : OcrWorker.step config unicode s.worker
      (.createJob id c.userId c.documentId language createdAt) = some worker) :
  Agreeing config hashtext userId documentId language old
    { worker
      calls := s.calls.put { c with phase := .returned (.ok
        ⟨createdJob config id c.userId c.documentId language createdAt, .created⟩) } }
  := by
  have hc := Table.mem_of_find hfind
  have hopen : c.phase.ended = false := by rw [hphase]; rfl
  have hlocks : c.phase.locks = true := by rw [hphase]; rfl
  have hfollows := h.calls c hc (hnew c.phase)
  have hlimit := h.limit.step hlimits hstep
  obtain ⟨ocrJobs, hcreate, hstep⟩ := Option.bind_eq_some_iff.mp hstep
  obtain rfl := Option.some.inj hstep
  have hdocument : (createdJob config id c.userId c.documentId language createdAt).documentId
      = documentId := hfollows.document
  have hjobs := jobsOf_create hcreate documentId
  rw [hnone, List.nil_append, if_pos hdocument] at hjobs
  refine ⟨hlimit, ⟨h.offers.acceptable, .inr ⟨_, hjobs, rfl, nofun, nofun⟩, ?_⟩,
    h.exclusive.put hfind nofun, h.kept_put hold hfind hopen _, ?_, ?_⟩
  · intro hempty
    rw [hjobs] at hempty
    cases hempty
  · intro c' hc' hnew'
    rcases Table.mem_rows_put_iff.mp hc' with rfl | ⟨hc', hne⟩
    · exact ⟨hfollows.user, hfollows.document, hfollows.requests, _, _, rfl, hjobs, rfl⟩
    · have hfollows' := h.calls c' hc' hnew'
      have hopen' := hfollows'.open_of_no_job hnone
      -- The lock of the document is with the call that commits.
      have hlocks' : c'.phase.locks = false := by
        by_contra hheld
        apply hne
        rw [h.exclusive c' hc' c hc (Bool.not_eq_false _ ▸ hheld) hlocks
          (by rw [hfollows'.document, hfollows.document])]
      have hknows := hfollows'.phase
      refine ⟨hfollows'.user, hfollows'.document, hfollows'.requests, ?_⟩
      cases hphase' : c'.phase with
      | called | owned | waiting =>
          rw [hphase'] at hknows
          exact hknows
      | returned | rejected =>
          rw [hphase'] at hopen'
          cases hopen'
      | _ =>
          rw [hphase'] at hlocks'
          cases hlocks'
  · intro job hjob
    change { s.worker.db with ocrJobs }.jobsOf documentId = [job] at hjob
    rw [hjobs] at hjob
    obtain rfl := List.head_eq_of_cons_eq hjob
    refine ⟨_, Table.mem_rows_put_iff.mpr (.inl rfl), hnew _, ⟨_, rfl, rfl⟩, ?_⟩
    intro c' hc' hnew' hne'
    rcases Table.mem_rows_put_iff.mp hc' with rfl | ⟨hc', -⟩
    · exact absurd rfl hne'
    · exact fun _ => Call.not_returns_of_open ((h.calls c' hc' hnew').open_of_no_job hnone)

/-- Every step of identical requests keeps the invariant. -/
theorem Agreeing.step (henabled : config.enabled = true) (hlimits : config.limits.Validated)
    {old : List Call} (hold : ∀ c ∈ old, c.phase.ended = true)
    (h : Agreeing config hashtext userId documentId language old s) {a : Label}
    (hidentical : Identical config userId documentId language ⟨s, a, s'⟩)
    (hstep : (system config unicode hashtext).step s a = some s') :
  Agreeing config hashtext userId documentId language old s'
  := by
  cases labelStep_of_step hstep with
  | worker ha hworker => exact agreeing_worker hlimits h ha hworker hidentical
  | @calls id userId' documentId' operation _ hcreate =>
      obtain ⟨huser, hdocument, hrequests⟩ :=
        hidentical.requests id userId' documentId' operation rfl
      exact agreeing_call h hcreate rfl huser hdocument hrequests
  | goes hc hact =>
      obtain ⟨hopen, hnew⟩ := h.new_of_act hold hc hact
      have hfollows := h.calls _ (Table.mem_of_find hc) (hnew _)
      have hproceeds :=
        Call.proceeds_of_act henabled hlimits h.offers hfollows hc hidentical hact
      exact agreeing_quiet hold h hc hact hproceeds
  | commits hc hact hworker =>
      obtain ⟨hopen, hnew⟩ := h.new_of_act hold hc hact
      have hfollows := h.calls _ (Table.mem_of_find hc) (hnew _)
      have hproceeds :=
        Call.proceeds_of_act henabled hlimits h.offers hfollows hc hidentical hact
      cases hproceeds with
      | commits hnone hphase => exact agreeing_commit hlimits hold h hc hnew hphase hnone hworker

/-! ### Requests come to an end -/

/-- The statements a request has still to execute, at most. -/
def Phase.rank : Phase → ℕ
  | .called => 9
  | .owned _ _ => 8
  | .waiting _ => 7
  | .locked _ => 6
  | .searching _ | .resolving _ => 5
  | .counting _ => 4
  | .counted _ => 3
  | .admitted _ => 2
  | .inserted _ _ _ => 1
  | .returned _ | .rejected => 0

/-- The statements all calls have still to execute. -/
def State.rank (s : State) : ℕ :=
  (s.calls.rows.map fun c => c.phase.rank).sum

/-- A step of a call lowers the rank by as much as its own. -/
theorem rank_put_lt (hfind : s.calls.find c.id = some c) {phase : Phase} {worker : OcrWorker.State}
    (hlt : phase.rank < c.phase.rank) :
  ({ worker, calls := s.calls.put { c with phase } } : State).rank < s.rank
  := by
  have hnew := ((s.calls.perm_put { c with phase }).map fun c => c.phase.rank).sum_eq
  have hold := ((s.calls.perm_put c).map fun c => c.phase.rank).sum_eq
  rw [Table.put_of_find hfind] at hold
  simp only [List.map_cons, List.sum_cons] at hnew hold
  change ((s.calls.put { c with phase }).rows.map fun c => c.phase.rank).sum
    < (s.calls.rows.map fun c => c.phase.rank).sum
  rw [hnew, hold]
  exact Nat.add_lt_add_right hlt _

/-- A statement lowers the rank of its call. -/
theorem Call.rank_of_act {action : Action} {e : Effect}
    (h : c.act config hashtext s action = some e) :
  e.phase.rank < c.phase.rank
  := by
  cases hphase : c.phase with
  | locked goal =>
      cases goal <;> cases action <;> simp only [act, advance, hphase, goTo, fail] at h
        <;> grind [Phase.rank]
  | _ =>
      cases action <;> simp only [act, advance, hphase, goTo, fail] at h <;> grind [Phase.rank]

/-- A statement of a request can be executed in the system. -/
theorem Agreeing.exists_step (henabled : config.enabled = true) (hlimits : config.limits.Validated)
    {old : List Call} (hold : ∀ c ∈ old, c.phase.ended = true)
    (h : Agreeing config hashtext userId documentId language old s)
    (hfind : s.calls.find c.id = some c) {action : Action} {e : Effect}
    (hact : c.act config hashtext s action = some e) (hthrow : action ≠ .throw)
    (hresolves : ∀ available, action = .resolve available → ∀ dto, c.operation = .request dto →
      OcrLanguagesService.resolve config available dto.language = .ok language)
    (hgenerated : ∀ id createdAt, action = .create id createdAt →
      s.worker.db.ocrJobs.find id = none) :
  ∃ s', (system config unicode hashtext).step s (.step c.id action) = some s'
    ∧ Identical config userId documentId language ⟨s, .step c.id action, s'⟩ ∧ s'.rank < s.rank
  := by
  have hidentical (s' : State) (hunfailed : ∀ job ∈ s'.worker.db.jobsOf documentId,
      job.status ≠ .FAILED ∧ job.status ≠ .CANCELLED) :
      Identical config userId documentId language ⟨s, .step c.id action, s'⟩ := by
    refine ⟨by rintro _ _ _ _ ⟨⟩, ?_, ?_, ?_, by rintro _ ⟨⟩, hunfailed⟩
    · rintro _ available ⟨⟩ c' dto hfind' hoperation
      obtain rfl := Option.some.inj (hfind.symm.trans hfind')
      exact hresolves available rfl dto hoperation
    · rintro _ id createdAt ⟨⟩
      exact hgenerated id createdAt rfl
    · rintro _ ⟨⟩
      exact hthrow rfl
  have hunfailed : ∀ job ∈ s.worker.db.jobsOf documentId,
      job.status ≠ .FAILED ∧ job.status ≠ .CANCELLED := by
    intro job hjob
    rcases h.offers.jobs with hnone | ⟨other, hother, -, hstatus⟩
    · rw [hnone] at hjob
      cases hjob
    · rw [hother, List.mem_singleton] at hjob
      rw [hjob]
      exact hstatus
  have hc := Table.mem_of_find hfind
  obtain ⟨-, hnew⟩ := h.new_of_act hold hfind hact
  have hfollows := h.calls c hc (hnew c.phase)
  have hproceeds := Call.proceeds_of_act henabled hlimits h.offers hfollows hfind
    (hidentical s hunfailed) hact
  have hrank := Call.rank_of_act hact
  have hquiet {phase : Phase} (hphase : e = ⟨phase, none⟩) :
      (system config unicode hashtext).step s (.step c.id action)
        = some { s with calls := s.calls.put { c with phase } } := by
    subst hphase
    simp [system, OcrService.step, hfind, hact]
  cases hproceeds with
  | goes => exact ⟨_, hquiet rfl, hidentical _ hunfailed, rank_put_lt hfind hrank⟩
  | returns => exact ⟨_, hquiet rfl, hidentical _ hunfailed, rank_put_lt hfind hrank⟩
  | @commits id createdAt hnone hphase =>
      have hknows := hfollows.phase
      rw [hphase] at hknows
      obtain ⟨ocrJobs, hcreate⟩ : ∃ ocrJobs, s.worker.db.ocrJobs.create
          (createdJob config id c.userId c.documentId language createdAt) = some ocrJobs := by
        have hfree : (createdJob config id c.userId c.documentId language createdAt).id
            ∉ s.worker.db.ocrJobs.rows.map OcrJob.id := Table.find_eq_none_iff.mp hknows.2.2
        unfold Table.create
        rw [dif_neg hfree]
        exact ⟨_, rfl⟩
      refine ⟨{ worker := { s.worker with db := { s.worker.db with ocrJobs } }
                calls := s.calls.put { c with phase := .returned (.ok
                  ⟨createdJob config id c.userId c.documentId language createdAt, .created⟩) } },
        ?_, hidentical _ ?_, rank_put_lt hfind hrank⟩
      · simp [system, OcrService.step, hfind, hact, OcrWorker.step, hcreate]
      · have hdocument : (createdJob config id c.userId c.documentId language createdAt).documentId
            = documentId := hfollows.document
        have hjobs := jobsOf_create hcreate documentId
        rw [hnone, List.nil_append, if_pos hdocument] at hjobs
        intro job hjob
        change job ∈ { s.worker.db with ocrJobs }.jobsOf documentId at hjob
        rw [hjobs, List.mem_singleton] at hjob
        rw [hjob]
        constructor <;> rintro ⟨⟩

/-- The statements that neither generate nor resolve anything can always be executed, but for the
lock. -/
theorem Call.exists_advance (hphase : c.phase = .called ∨ (∃ goal, c.phase = .waiting goal
      ∧ lockFree hashtext s.calls c.documentId) ∨ (∃ goal, c.phase = .locked goal)
      ∨ (∃ language, c.phase = .searching language ∨ c.phase = .counting language
        ∨ c.phase = .counted language)
      ∨ ∃ id language createdAt, c.phase = .inserted id language createdAt) :
  ∃ e, c.act config hashtext s .advance = some e
  := by
  apply Option.isSome_iff_exists.mp
  rcases hphase with hphase | ⟨goal, hphase, hfree⟩ | ⟨goal, hphase⟩
    | ⟨language, hphase | hphase | hphase⟩ | ⟨id, language, createdAt, hphase⟩
  · simp only [act, advance, hphase, goTo, fail]
    grind
  · simp only [act, advance, hphase, goTo, if_pos hfree, Option.isSome_some]
  · cases goal <;> simp only [act, advance, hphase, goTo, fail] <;> grind
  · simp only [act, advance, hphase, goTo]
    grind
  · simp only [act, advance, hphase, goTo, fail]
    grind
  · simp only [act, advance, hphase, goTo, fail]
    grind
  · simp only [act, advance, hphase, Option.isSome_some]

/-- A request that is not waiting for a lock has a statement that can be executed. -/
theorem Agreeing.exists_act (henabled : config.enabled = true) (hlimits : config.limits.Validated)
    {old : List Call} (hold : ∀ c ∈ old, c.phase.ended = true)
    (h : Agreeing config hashtext userId documentId language old s) (hc : c ∈ s.calls.rows)
    (hopen : c.phase.ended = false)
    (hfree : c.phase.locks = true ∨ ∀ c' ∈ s.calls.rows, c'.phase.locks = false) :
  ∃ action s', (system config unicode hashtext).step s (.step c.id action) = some s'
    ∧ Identical config userId documentId language ⟨s, .step c.id action, s'⟩ ∧ s'.rank < s.rank
  := by
  have hfind := Table.mem_rows_iff.mp hc
  have hnew : c ∉ old := by
    intro hmem
    rw [hold c hmem] at hopen
    cases hopen
  have hfollows := h.calls c hc hnew
  have hadvance (hact : ∃ e, c.act config hashtext s .advance = some e) :
      ∃ action s', (system config unicode hashtext).step s (.step c.id action) = some s'
        ∧ Identical config userId documentId language ⟨s, .step c.id action, s'⟩
        ∧ s'.rank < s.rank := by
    obtain ⟨e, hact⟩ := hact
    exact ⟨.advance, h.exists_step henabled hlimits hold hfind hact
      (by rintro ⟨⟩) (by rintro _ ⟨⟩) (by rintro _ _ ⟨⟩)⟩
  have hphase := hfollows.phase
  cases hc' : c.phase with
  | called => exact hadvance (Call.exists_advance (.inl hc'))
  | owned document dto =>
      rw [hc'] at hphase
      obtain ⟨hoperation, hprocessable⟩ := hphase
      obtain ⟨dto', available, hrequest, -, hresolve⟩ := hfollows.requests
      have hdto (d : RequestOcrDto) (hd : c.operation = .request d) : dto' = d := by
        rw [hrequest] at hd
        exact Operation.request.inj hd
      obtain rfl := hdto dto hoperation
      have hact : ∃ e, c.act config hashtext s (.resolve available) = some e := by
        simp only [Call.act, hc', hresolve, hprocessable]
        exact ⟨_, rfl⟩
      obtain ⟨e, hact⟩ := hact
      refine ⟨.resolve available, h.exists_step henabled hlimits hold hfind hact
        (by rintro ⟨⟩) ?_ (by rintro _ _ ⟨⟩)⟩
      rintro _ ⟨⟩ d hd
      rw [← hdto d hd]
      exact hresolve
  | waiting goal =>
      refine hadvance (Call.exists_advance (.inr (.inl ⟨goal, hc', ?_⟩)))
      intro c' hmem hlocks
      rcases hfree with hheld | hnone
      · rw [hc'] at hheld
        cases hheld
      · rw [hnone c' hmem] at hlocks
        cases hlocks
  | locked goal => exact hadvance (Call.exists_advance (.inr (.inr (.inl ⟨goal, hc'⟩))))
  | searching language' =>
      exact hadvance (Call.exists_advance (.inr (.inr (.inr (.inl ⟨language', .inl hc'⟩)))))
  | resolving language' =>
      rw [hc'] at hphase
      cases hphase
  | counting language' =>
      exact hadvance (Call.exists_advance
        (.inr (.inr (.inr (.inl ⟨language', .inr (.inl hc')⟩)))))
  | counted language' =>
      exact hadvance (Call.exists_advance
        (.inr (.inr (.inr (.inl ⟨language', .inr (.inr hc')⟩)))))
  | admitted language' =>
      have hfresh : ((s.worker.db.ocrJobs.rows.map OcrJob.id).sum + 1)
          ∉ s.worker.db.ocrJobs.rows.map OcrJob.id := by
        intro hmem
        have hle := List.single_le_sum (fun _ _ => Nat.zero_le _) _ hmem
        omega
      have hact : ∃ e, c.act config hashtext s
          (.create ((s.worker.db.ocrJobs.rows.map OcrJob.id).sum + 1) 0) = some e := by
        simp only [Call.act, hc']
        exact ⟨_, rfl⟩
      obtain ⟨e, hact⟩ := hact
      refine ⟨_, h.exists_step henabled hlimits hold hfind hact
        (by rintro ⟨⟩) (by rintro _ ⟨⟩) ?_⟩
      rintro _ _ ⟨⟩
      exact Table.find_eq_none_iff.mpr hfresh
  | inserted id language' createdAt =>
      exact hadvance (Call.exists_advance
        (.inr (.inr (.inr (.inr ⟨id, language', createdAt, hc'⟩)))))
  | returned | rejected =>
      rw [hc'] at hopen
      cases hopen

/-- In every state but the last some request has a statement that can be executed. -/
theorem Agreeing.progress (henabled : config.enabled = true) (hlimits : config.limits.Validated)
    {old : List Call} (hold : ∀ c ∈ old, c.phase.ended = true)
    (h : Agreeing config hashtext userId documentId language old s)
    (hgoal : ¬∀ c ∈ s.calls.rows, c.phase.ended = true) :
  ∃ a s', (system config unicode hashtext).step s a = some s'
    ∧ (Identical config userId documentId language ⟨s, a, s'⟩
      ∧ ∃ callId action, a = .step callId action)
    ∧ Agreeing config hashtext userId documentId language old s' ∧ s'.rank < s.rank
  := by
  obtain ⟨c, hc, hopen⟩ : ∃ c ∈ s.calls.rows, c.phase.ended = false := by
    by_contra hnone
    apply hgoal
    intro c hc
    by_contra hopen
    exact hnone ⟨c, hc, Bool.eq_false_iff.mpr hopen⟩
  -- The call that holds a lock goes first, if there is one.
  obtain ⟨d, hd, hdopen, hfree⟩ : ∃ d ∈ s.calls.rows, d.phase.ended = false
      ∧ (d.phase.locks = true ∨ ∀ c' ∈ s.calls.rows, c'.phase.locks = false) := by
    by_cases hheld : ∃ d ∈ s.calls.rows, d.phase.locks = true
    · obtain ⟨d, hd, hlocks⟩ := hheld
      refine ⟨d, hd, ?_, .inl hlocks⟩
      cases hphase : d.phase with
      | returned | rejected =>
          rw [hphase] at hlocks
          cases hlocks
      | _ => rfl
    · refine ⟨c, hc, hopen, .inr ?_⟩
      intro c' hc'
      exact Bool.eq_false_iff.mpr fun hlocks => hheld ⟨c', hc', hlocks⟩
  obtain ⟨action, s', hstep, hidentical, hrank⟩ :=
    h.exists_act henabled hlimits hold hd hdopen hfree
  exact ⟨_, s', hstep, ⟨hidentical, _, _, rfl⟩,
    h.step henabled hlimits hold hidentical hstep, hrank⟩

/-- The invariant holds where the requests start from. -/
theorem agreeing_of_ready {s₀ : State} (hlimit : OcrWorker.WithinPageLimit config s₀.worker)
    (hready : Ready config userId documentId s₀)
    (hacceptable : Acceptable config s₀.worker.db userId documentId) :
  Agreeing config hashtext userId documentId language s₀.calls.rows s₀
  := by
  refine ⟨hlimit, ⟨hacceptable, .inl hready.noJob, fun _ => hready.quota⟩, ?_,
    List.Subset.refl _, ?_, ?_⟩
  · intro c hc c' _ hlocks
    have hended := hready.idle c hc
    cases hphase : c.phase with
    | returned | rejected =>
        rw [hphase] at hlocks
        cases hlocks
    | _ =>
        rw [hphase] at hended
        cases hended
  · exact fun c hc hnew => absurd hc hnew
  · intro job hjob
    rw [hready.noJob] at hjob
    cases hjob

/-- Requests that have ended have returned the job of the document. -/
theorem Agreeing.exists_result {old : List Call}
    (h : Agreeing config hashtext userId documentId language old s) (hc : c ∈ s.calls.rows)
    (hnew : c ∉ old) (hended : c.phase.ended = true) :
  ∃ outcome job, s.worker.db.jobsOf documentId = [job] ∧ c.Returns outcome job.id
  := by
  have hphase := (h.calls c hc hnew).phase
  cases hc' : c.phase with
  | returned result =>
      rw [hc'] at hphase
      obtain ⟨⟨job, outcome⟩, job', rfl, hjob, hid⟩ := hphase
      exact ⟨outcome, job', hjob, job, hc', hid⟩
  | rejected =>
      rw [hc'] at hphase
      cases hphase
  | _ =>
      rw [hc'] at hended
      cases hended

/-- When all requests have ended, they agree. -/
theorem Agreeing.agree {s₀ : State}
    (h : Agreeing config hashtext userId documentId language s₀.calls.rows s)
    (hended : ∀ c ∈ s.calls.rows, c.phase.ended = true) (hsome : newCalls s₀ s ≠ []) :
  Agree (newCalls s₀ s)
  := by
  have hmem {c : Call} : c ∈ newCalls s₀ s ↔ c ∈ s.calls.rows ∧ c ∉ s₀.calls.rows := by
    simp [newCalls]
  obtain ⟨d, hd⟩ := List.exists_mem_of_ne_nil _ hsome
  obtain ⟨hd, hdnew⟩ := hmem.mp hd
  obtain ⟨-, job, hjob, -⟩ := h.exists_result hd hdnew (hended d hd)
  obtain ⟨creator, hcreator, hnew, hreturns, hothers⟩ := h.creator job hjob
  refine ⟨job.id, creator, hmem.mpr ⟨hcreator, hnew⟩, hreturns, ?_⟩
  intro c hc hne
  obtain ⟨hc, hcnew⟩ := hmem.mp hc
  obtain ⟨outcome, job', hjob', hreturned⟩ := h.exists_result hc hcnew (hended c hc)
  rw [hjob] at hjob'
  obtain rfl := List.head_eq_of_cons_eq hjob'
  cases outcome with
  | created => exact absurd hreturned (hothers c hc hcnew hne job.id)
  | active => exact .inl hreturned
  | existing => exact .inr hreturned

end

/-! ### Runs -/

/-- Identical requests agree: in every run of requests for one document in one language, made while
the document has no job, every request that has ended has returned a job; when all have, one of them
has created it and the others have returned the same one; and all of them can come to an end. -/
theorem identical_requests_agree {s₁ s₀ s : State} {ts₀ ts : List (Transition State Label)}
    {userId documentId : ℕ} {language : JsString} (hlimits : config.limits.Validated)
    (henabled : config.enabled = true) (hinit : (system config unicode hashtext).init s₁)
    (hbefore : (system config unicode hashtext).Run s₁ ts₀ s₀)
    (hready : Ready config userId documentId s₀)
    (hacceptable : Acceptable config s₀.worker.db userId documentId)
    (hrun : (system config unicode hashtext).Run s₀ ts s)
    (hidentical : ∀ t ∈ ts, Identical config userId documentId language t) :
  (∀ c ∈ newCalls s₀ s, c.phase.ended = true → ∃ outcome jobId, c.Returns outcome jobId)
  ∧ ((∀ c ∈ newCalls s₀ s, c.phase.ended = true) → newCalls s₀ s ≠ [] → Agree (newCalls s₀ s))
  ∧ ∃ ts' s', (system config unicode hashtext).Run s ts' s'
    ∧ (∀ t ∈ ts', Identical config userId documentId language t
      ∧ ∃ callId action, t.label = .step callId action)
    ∧ ∀ c ∈ newCalls s₀ s', c.phase.ended = true
  := by
  obtain ⟨ts₁, hworker⟩ := run_worker hbefore
  have hlimit := OcrWorker.withinPageLimit_of_run hlimits hworker hinit.1
  have hagreeing : Agreeing config hashtext userId documentId language s₀.calls.rows s := by
    apply hrun.invariant (agreeing_of_ready hlimit hready hacceptable)
    intro t ht hstep h
    exact h.step henabled hlimits hready.idle (hidentical t ht) hstep
  have hmem {s : State} {c : Call} : c ∈ newCalls s₀ s ↔ c ∈ s.calls.rows ∧ c ∉ s₀.calls.rows := by
    simp [newCalls]
  refine ⟨?_, ?_, ?_⟩
  · intro c hc hended
    obtain ⟨hc, hnew⟩ := hmem.mp hc
    obtain ⟨outcome, job, -, hreturns⟩ := hagreeing.exists_result hc hnew hended
    exact ⟨outcome, job.id, hreturns⟩
  · intro hended hsome
    apply hagreeing.agree _ hsome
    intro c hc
    by_cases hold : c ∈ s₀.calls.rows
    · exact hready.idle c hold
    · exact hended c (hmem.mpr ⟨hc, hold⟩)
  · obtain ⟨ts', s', hrun', hts', -, hended⟩ := TransitionSystem.exists_run
      (S := system config unicode hashtext)
      (I := Agreeing config hashtext userId documentId language s₀.calls.rows)
      (P := fun t => Identical config userId documentId language t
        ∧ ∃ callId action, t.label = .step callId action)
      State.rank (fun _ h => h.progress henabled hlimits hready.idle) hagreeing
    exact ⟨ts', s', hrun', hts', fun c hc => hended c (hmem.mp hc).1⟩

/-! ### Samples -/

/-- Whether a transition is one of identical requests that resolve with the given languages. -/
def identicalCheck (config : OcrConfig) (userId documentId : ℕ) (language : JsString)
    (available : List JsString) (t : Transition State Label) : Bool :=
  (match t.label with
    | .call _ userId' documentId' (.request dto) =>
        userId' = userId && documentId' = documentId && dto.forceReprocess ≠ some true
          && OcrLanguagesService.resolve config available dto.language = .ok language
    | .call _ _ _ .retry | .step _ .throw => false
    | .step callId (.resolve available') => (t.source.calls.find callId).all fun c =>
        match c.operation with
        | .request dto => OcrLanguagesService.resolve config available' dto.language = .ok language
        | .retry => true
    | .step _ (.create id _) => (t.source.worker.db.ocrJobs.find id).isNone
    | .worker (.writeDocument document) => document.id ≠ documentId
    | _ => true)
  && (t.target.worker.db.jobsOf documentId).all fun job =>
    job.status ≠ .FAILED && job.status ≠ .CANCELLED

theorem identical_of_check {userId documentId : ℕ} {language : JsString} {available : List JsString}
    {t : Transition State Label}
    (h : identicalCheck config userId documentId language available t = true) :
  Identical config userId documentId language t
  := by
  unfold identicalCheck at h
  rw [Bool.and_eq_true] at h
  obtain ⟨hlabel, hjobs⟩ := h
  refine ⟨?_, ?_, ?_, ?_, ?_, ?_⟩
  · intro id userId' documentId' operation heq
    rw [heq] at hlabel
    cases operation with
    | request dto =>
        simp only [Bool.and_eq_true, decide_eq_true_eq] at hlabel
        obtain ⟨⟨⟨huser, hdocument⟩, hforce⟩, hresolve⟩ := hlabel
        exact ⟨huser, hdocument, dto, available, rfl, hforce, hresolve⟩
    | retry => cases hlabel
  · intro callId available' heq c dto hfind hoperation
    rw [heq] at hlabel
    simpa [hfind, hoperation] using hlabel
  · intro callId id createdAt heq
    rw [heq] at hlabel
    exact Option.isNone_iff_eq_none.mp hlabel
  · intro callId heq
    rw [heq] at hlabel
    cases hlabel
  · intro document heq
    rw [heq] at hlabel
    exact of_decide_eq_true hlabel
  · intro job hjob
    simpa using List.all_eq_true.mp hjobs job hjob

/-- The call `k` requests the English text of a document, up to the lock. -/
def englishRequest (k documentId : ℕ) : List Label :=
  [.call k 7 documentId (.request ⟨some (js "eng"), none⟩), .step k .advance,
    .step k (.resolve [js "eng"])]

/-- The user has had the text of the second document requested. -/
def earlierRequest : List Label :=
  englishRequest 9 2 ++ sampleInsert 9 0 ++ [.step 9 .advance]

/-- The job `1` is processed, once interrupted. -/
def interruptedProcessing : List OcrWorker.Label :=
  [.deliver 1 1] ++ OcrWorker.sampleClaim 1 0 ++ OcrWorker.sampleInspection 1
    ++ [.process 1 .die, .tick 120001, .reconcile 1 120001, .reconcileNext 1 120001, .deliver 2 1]
    ++ OcrWorker.sampleClaim 2 120001 ++ OcrWorker.sampleInspection 2
    ++ [.process 2 (.extract OcrWorker.sampleTools), .process 2 .advance,
      .process 2 (.extract OcrWorker.sampleTools), .process 2 .advance,
      .process 2 (.extract OcrWorker.sampleTools), .process 2 .advance]

/-- Three requests for the first document.  The second one finds the job of the first one queued;
then the job is processed, and the third one finds it COMPLETED. -/
def threeRequests : List Label :=
  englishRequest 1 1 ++ englishRequest 2 1 ++ englishRequest 3 1 ++ sampleInsert 1 5
    ++ [.step 1 .advance, .step 2 .advance, .step 2 .advance]
    ++ interruptedProcessing.map .worker
    ++ [.step 3 .advance, .step 3 .advance, .step 3 .advance]

/-- Of three identical requests one has created the job, one has found it active, and one has found
it finished. -/
theorem identical_requests_agree_of_threeRequests :
  ∃ s₀ ts s, (system defaultOcrConfig asciiUnicode id).Run s₀ ts s
    ∧ (newCalls s₀ s).map Call.id = [1, 2, 3]
    ∧ (∀ c ∈ newCalls s₀ s, c.phase.ended = true → ∃ outcome jobId, c.Returns outcome jobId)
    ∧ Agree (newCalls s₀ s)
  := by
  have hsome : ((system defaultOcrConfig asciiUnicode id).execute (fun _ => true) sampleState
      earlierRequest).any (fun s₀ =>
        s₀.calls.rows.all (fun c => c.phase.ended)
        && decide (s₀.worker.db.documents.find 1 = some OcrWorker.sampleDocument)
        && decide (s₀.worker.db.jobsOf 1 = [])
        && decide (OcrJobService.countActiveForUser s₀.worker.db 7 = 1)
        && ((system defaultOcrConfig asciiUnicode id).execute
          (identicalCheck defaultOcrConfig 7 1 (js "eng") [js "eng"]) s₀ threeRequests).any
            fun s => (newCalls s₀ s).all (fun c => c.phase.ended)
              && decide ((newCalls s₀ s).map Call.id = [1, 2, 3])) = true := by
    decide +kernel
  obtain ⟨s₀, hs₀, hend⟩ := (Option.any_eq_true _ _).mp hsome
  obtain ⟨ts₀, hbefore, -⟩ := TransitionSystem.run_of_execute hs₀
  simp only [Bool.and_eq_true, decide_eq_true_eq, List.all_eq_true] at hend
  obtain ⟨⟨⟨⟨hidle, hdocument⟩, hnoJob⟩, hcount⟩, hnext⟩ := hend
  obtain ⟨s, hs, hend⟩ := (Option.any_eq_true _ _).mp hnext
  obtain ⟨ts, hrun, hts⟩ := TransitionSystem.run_of_execute hs
  simp only [Bool.and_eq_true, decide_eq_true_eq, List.all_eq_true] at hend
  obtain ⟨hended, hids⟩ := hend
  have howned : DocumentsService.getOwned s₀.worker.db.documents 7 1
      = .ok OcrWorker.sampleDocument :=
    DocumentsService.getOwned_eq_ok_iff.mpr ⟨hdocument, rfl, rfl⟩
  have hready : Ready defaultOcrConfig 7 1 s₀ :=
    ⟨hidle, ⟨_, rfl, howned⟩, hnoJob, by rw [hcount]; decide⟩
  have hagree := identical_requests_agree Configuration.validated_defaultLimits rfl
    ⟨⟨rfl, rfl, rfl, rfl⟩, rfl⟩ hbefore hready ⟨_, howned, by decide⟩ hrun
    fun t ht => identical_of_check (hts t ht)
  refine ⟨s₀, ts, s, hrun, hids, hagree.1, hagree.2.1 hended ?_⟩
  intro hnil
  rw [hnil] at hids
  cases hids

/-- A configuration in which files may be uploaded that are too large to be processed. -/
def smallConfig : OcrConfig :=
  { defaultOcrConfig with limits := { defaultLimits with maxFileSizeBytes := 1024 } }

/-- The first document has two thousand bytes. -/
def largeState : State :=
  { sampleState with
    worker :=
      { sampleState.worker with
        db :=
          { sampleState.worker.db with
            documents := sampleState.worker.db.documents.put
              { OcrWorker.sampleDocument with fileSize := some 2000 } } } }

/-- A request for a READY document whose file is too large creates no job. -/
theorem requests_for_large_file_disagree :
  ∃ ts s, smallConfig.limits.Validated ∧ smallConfig.enabled = true
    ∧ (system smallConfig asciiUnicode id).init largeState
    ∧ Ready smallConfig 7 1 largeState
    ∧ (system smallConfig asciiUnicode id).Run largeState ts s
    ∧ (∀ t ∈ ts, Identical smallConfig 7 1 (js "eng") t)
    ∧ newCalls largeState s ≠ [] ∧ (∀ c ∈ newCalls largeState s, c.phase.ended = true)
    ∧ ¬Agree (newCalls largeState s)
  := by
  have hsome : ((system smallConfig asciiUnicode id).execute
      (identicalCheck smallConfig 7 1 (js "eng") [js "eng"]) largeState
      (englishRequest 1 1)).any (fun s => decide ((newCalls largeState s).map Call.phase
        = [.returned (.error (ocrFileTooLarge 1024))])) = true := by
    decide +kernel
  obtain ⟨s, hs, hend⟩ := (Option.any_eq_true _ _).mp hsome
  obtain ⟨ts, hrun, hts⟩ := TransitionSystem.run_of_execute hs
  have hphases := of_decide_eq_true hend
  have hphase {c : Call} (hc : c ∈ newCalls largeState s) :
      c.phase = .returned (.error (ocrFileTooLarge 1024)) := by
    have hmem := List.mem_map_of_mem (f := Call.phase) hc
    rw [hphases, List.mem_singleton] at hmem
    exact hmem
  refine ⟨ts, s, ?_, rfl, ⟨⟨rfl, rfl, rfl, rfl⟩, rfl⟩, ?_, hrun,
    fun t ht => identical_of_check (hts t ht), ?_, ?_, ?_⟩
  · exact { Configuration.validated_defaultLimits with maxFileSizeBytes := by decide }
  · have hcalls : largeState.calls.rows = [] := rfl
    refine ⟨by simp [hcalls], ⟨{ OcrWorker.sampleDocument with fileSize := some 2000 }, rfl, ?_⟩,
      by decide +kernel, ?_⟩
    · exact DocumentsService.getOwned_eq_ok_iff.mpr ⟨by decide +kernel, rfl, rfl⟩
    · decide +kernel
  · intro hnil
    rw [hnil] at hphases
    cases hphases
  · intro c hc
    rw [hphase hc]
    rfl
  · rintro ⟨jobId, c, hc, ⟨job, hreturned, -⟩, -⟩
    rw [hphase hc] at hreturned
    cases hreturned

end OcrService

end DocuAI
