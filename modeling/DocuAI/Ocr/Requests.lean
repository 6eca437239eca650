import DocuAI.Documents.Service
import DocuAI.Ocr.Languages
import DocuAI.Ocr.Worker
import Mathlib.Data.List.MinMax
import Mathlib.Data.Prod.Lex

/-!
# Requests for text extraction

The calls `request` and `retry` of the API.  Each evaluates the duplicate-job policy in a transaction
that holds the advisory lock of its document, one statement at a time, and reads what is committed
when the statement starts.  The job it creates is committed at the end of the transaction, together
with the release of the lock.  The calls run beside the worker system, and a commit is its step that
inserts a job.
-/

namespace DocuAI

def OcrJobStatus.name : OcrJobStatus → JsString
  | .QUEUED => js "QUEUED"
  | .PROCESSING => js "PROCESSING"
  | .COMPLETED => js "COMPLETED"
  | .PARTIAL => js "PARTIAL"
  | .FAILED => js "FAILED"
  | .CANCELLED => js "CANCELLED"

/-! ### Queries -/

namespace Database

/-- The jobs of a document, in the order of their creation. -/
def jobsOf (db : Database) (documentId : ℕ) : List OcrJob :=
  db.ocrJobs.rows.filter fun job => job.documentId = documentId

end Database

namespace OcrJobService

/-- `orderBy: [{ createdAt: 'desc' }, { id: 'desc' }]`: the first of the given jobs. -/
def findLatest (jobs : List OcrJob) : Option OcrJob :=
  jobs.argmax fun job => toLex (job.createdAt, job.id)

variable (db : Database)

def latestForDocument (documentId userId : ℕ) : Option OcrJob :=
  findLatest ((db.jobsOf documentId).filter fun job => job.userId = userId)

def activeForDocument (documentId : ℕ) : Option OcrJob :=
  findLatest ((db.jobsOf documentId).filter fun job => job.status ∈ ACTIVE_OCR_STATUSES)

def latestForLanguage (documentId : ℕ) (language : JsString) : Option OcrJob :=
  findLatest ((db.jobsOf documentId).filter fun job => job.language = language)

def countActiveForUser (userId : ℕ) : ℕ :=
  db.ocrJobs.rows.countP fun job => job.userId = userId && job.status ∈ ACTIVE_OCR_STATUSES

def countForDocument (documentId : ℕ) : ℕ :=
  (db.jobsOf documentId).length

end OcrJobService

namespace OcrService

def SUPPORTED_MIME_TYPES : List JsString :=
  [js "application/pdf", js "image/jpeg", js "image/png", js "image/webp"]

def RETRYABLE_STATUSES : List OcrJobStatus := [.FAILED, .PARTIAL]

/-- Whether the file of a document can be processed. -/
def assertProcessable (config : OcrConfig) (document : Document) : Except AppException Unit :=
  match document.status, document.storageKey, document.mimeType.filter (· ≠ []) with
  | .READY, some _, some mimeType =>
      if mimeType ∉ SUPPORTED_MIME_TYPES then .error ocrUnsupportedFileType
      else if document.fileSize.any (config.limits.maxFileSizeBytes < ·) then
        .error (ocrFileTooLarge config.limits.maxFileSizeBytes)
      else if document.pageCount.any (config.limits.maxPdfPages < ·) then
        .error (ocrPageLimitExceeded config.limits.maxPdfPages)
      else .ok ()
  | _, _, _ => .error ocrDocumentNotReady

/-! ### Calls -/

structure RequestOcrDto where
  language : Option JsString
  forceReprocess : Option Bool
  deriving DecidableEq

inductive OcrRequestOutcome where
  | created
  | active
  | existing
  deriving DecidableEq

structure OcrRequestResult where
  job : OcrJob
  outcome : OcrRequestOutcome
  deriving DecidableEq

inductive Operation where
  | request (dto : RequestOcrDto)
  | retry
  deriving DecidableEq

/-- What a call does under the lock of its document. -/
inductive Goal where
  | request (language : JsString) (force : Bool)
  | retry
  deriving DecidableEq

/-- Where a call stands: the statement it executes next. -/
inductive Phase where
  /-- `getOwned`. -/
  | called
  /-- `languages.resolve`, of a request. -/
  | owned (document : Document) (dto : RequestOcrDto)
  /-- `pg_advisory_xact_lock`. -/
  | waiting (goal : Goal)
  /-- The first query under the lock: `activeForDocument` of a request, `latestForDocument` of a
  retry. -/
  | locked (goal : Goal)
  /-- `latestForLanguage`. -/
  | searching (language : JsString)
  /-- `languages.resolve`, of a retry. -/
  | resolving (language : JsString)
  /-- `countActiveForUser`. -/
  | counting (language : JsString)
  /-- `countForDocument`. -/
  | counted (language : JsString)
  /-- `createJob`. -/
  | admitted (language : JsString)
  /-- The commit of the new job. -/
  | inserted (id : ℕ) (language : JsString) (createdAt : ℕ)
  | returned (result : Except AppException OcrRequestResult)
  /-- A statement failed; the transaction, if there was one, is rolled back. -/
  | rejected
  deriving DecidableEq

/-- The call holds the lock of its document. -/
def Phase.locks : Phase → Bool
  | .locked _ | .searching _ | .resolving _ | .counting _ | .counted _ | .admitted _
  | .inserted _ _ _ => true
  | _ => false

/-- One call of the API by a user on a document. -/
structure Call where
  id : ℕ
  userId : ℕ
  documentId : ℕ
  operation : Operation
  phase : Phase
  deriving DecidableEq

structure State where
  worker : OcrWorker.State
  calls : Table Call.id

/-- What a call meets in a step, besides the database. -/
inductive Action where
  /-- The next statement. -/
  | advance
  /-- `languages.resolve`, with the languages that are available. -/
  | resolve (available : List JsString)
  /-- `createJob`, with the id and the time the row gets. -/
  | create (id createdAt : ℕ)
  /-- The statement fails, or the process dies. -/
  | throw

inductive Label where
  /-- A step of a worker, of a reconciler or of the queue, or a change of a document. -/
  | worker (a : OcrWorker.Label)
  /-- A client calls. -/
  | call (id userId documentId : ℕ) (operation : Operation)
  | step (callId : ℕ) (action : Action)

/-- What a step of a call sends to the database, and where the call goes. -/
structure Effect where
  phase : Phase
  commit : Option OcrWorker.Label

/-- A step that commits nothing. -/
def goTo (phase : Phase) : Option Effect :=
  some ⟨phase, none⟩

/-- The call ends with an exception. -/
def fail (error : AppException) : Option Effect :=
  goTo (.returned (.error error))

section

variable (config : OcrConfig) (unicode : Unicode) (hashtext : ℕ → ℕ)

/-- Whether the lock of a document is free.  Locks are taken on a hash of the document's id. -/
def lockFree (calls : Table Call.id) (documentId : ℕ) : Prop :=
  ∀ c ∈ calls.rows, c.phase.locks = true → hashtext c.documentId ≠ hashtext documentId

instance (calls : Table Call.id) (documentId : ℕ) : Decidable (lockFree hashtext calls documentId) :=
  inferInstanceAs (Decidable (∀ c ∈ calls.rows, _ → _ ≠ _))

/-- The next statement of a call. -/
def Call.advance (s : State) (c : Call) : Option Effect :=
  let db := s.worker.db
  match c.phase with
  | .called =>
      if !config.enabled then fail ocrUnavailable
      else
        match DocumentsService.getOwned db.documents c.userId c.documentId with
        | .error error => fail error
        | .ok document =>
            match c.operation with
            | .request dto => goTo (.owned document dto)
            | .retry =>
                match assertProcessable config document with
                | .error error => fail error
                | .ok _ => goTo (.waiting .retry)
  | .waiting goal =>
      if lockFree hashtext s.calls c.documentId then goTo (.locked goal) else none
  | .locked (.request language force) =>
      match OcrJobService.activeForDocument db c.documentId with
      | some active =>
          if active.language = language then goTo (.returned (.ok ⟨active, .active⟩))
          else fail ocrAlreadyProcessing
      | none => if force then goTo (.counting language) else goTo (.searching language)
  | .locked .retry =>
      match OcrJobService.latestForDocument db c.documentId c.userId with
      | none => fail ocrNotFound
      | some latest =>
          if latest.status ∉ RETRYABLE_STATUSES then
            fail (ocrRetryNotAllowed
              (js "Only FAILED or PARTIAL jobs can be retried (latest job is "
                ++ latest.status.name ++ js ")"))
          else
            match latest.errorCode.filter (· ∈ PERMANENT_OCR_ERROR_CODES) with
            | some code =>
                fail (ocrRetryNotAllowed
                  (js "The latest job failed with a permanent error (" ++ js code.name
                    ++ js "); the document cannot be processed as-is"))
            | none => goTo (.resolving latest.language)
  | .searching language =>
      match OcrJobService.latestForLanguage db c.documentId language with
      | none => goTo (.counting language)
      | some latest =>
          if latest.status = .COMPLETED ∨ latest.status = .PARTIAL then
            goTo (.returned (.ok ⟨latest, .existing⟩))
          else goTo (.counting language)
  | .counting language =>
      if config.limits.maxActiveJobsPerUser ≤ OcrJobService.countActiveForUser db c.userId then
        fail (ocrTooManyJobs (js "At most " ++ jsNat config.limits.maxActiveJobsPerUser
          ++ js " OCR jobs can be queued or processing at once"))
      else goTo (.counted language)
  | .counted language =>
      if config.limits.maxJobsPerDocument ≤ OcrJobService.countForDocument db c.documentId then
        fail (ocrTooManyJobs (js "This document has reached the limit of "
          ++ jsNat config.limits.maxJobsPerDocument ++ js " OCR jobs"))
      else goTo (.admitted language)
  | .inserted id language createdAt =>
      some
        { phase := .returned (.ok
            ⟨createdJob config id c.userId c.documentId language createdAt, .created⟩)
          commit := some (.createJob id c.userId c.documentId language createdAt) }
  | _ => none

/-- One step of a call. -/
def Call.act (s : State) (c : Call) : Action → Option Effect
  | .advance => c.advance config hashtext s
  | .resolve available =>
      match c.phase with
      | .owned document dto =>
          match OcrLanguagesService.resolve config available dto.language with
          | .error error => fail error
          | .ok language =>
              match assertProcessable config document with
              | .error error => fail error
              | .ok _ => goTo (.waiting (.request language (dto.forceReprocess = some true)))
      | .resolving language =>
          match OcrLanguagesService.resolve config available (some language) with
          | .error error => fail error
          | .ok _ => goTo (.counting language)
      | _ => none
  | .create id createdAt =>
      match c.phase with
      | .admitted language => goTo (.inserted id language createdAt)
      | _ => none
  | .throw =>
      match c.phase with
      | .returned _ | .rejected => none
      | _ => goTo .rejected

/-- One step of the system.  Only calls create jobs. -/
def step (s : State) : Label → Option State
  | .worker a =>
      if a.createsJob then none
      else do
        let worker ← OcrWorker.step config unicode s.worker a
        some { s with worker }
  | .call id userId documentId operation => do
      let calls ← s.calls.create { id, userId, documentId, operation, phase := .called }
      some { s with calls }
  | .step callId action => do
      let c ← s.calls.find callId
      let e ← c.act config hashtext s action
      let calls := s.calls.put { c with phase := e.phase }
      match e.commit with
      | none => some { s with calls }
      | some a => do
          let worker ← OcrWorker.step config unicode s.worker a
          some { worker, calls }

/-- The calls beside the worker system. -/
def system : TransitionSystem State Label where
  init s := (OcrWorker.system config unicode).init s.worker ∧ s.calls.rows = []
  step := step config unicode hashtext

end

/-! ### What a step does to the jobs -/

/-- The change of a job takes neither its document nor its user nor its place among the jobs, and
leaves it alone once it is terminal. -/
structure Keeps (f : OcrJob → OcrJob) : Prop where
  documentId : ∀ job, (f job).documentId = job.documentId
  userId : ∀ job, (f job).userId = job.userId
  createdAt : ∀ job, (f job).createdAt = job.createdAt
  terminal : ∀ job, job.status ∈ TERMINAL_OCR_STATUSES → f job = job

theorem Keeps.id : Keeps id
  := ⟨fun _ => rfl, fun _ => rfl, fun _ => rfl, fun _ _ => rfl⟩

/-- A write keeps the jobs. -/
theorem keeps_write (w : Write) (staleMs now : ℕ) (db : Database) :
  Keeps ((w.update staleMs now db).on w.jobId).apply
  := by
  have hdata : ∀ job, ((w.update staleMs now db).data job).documentId = job.documentId
      ∧ ((w.update staleMs now db).data job).userId = job.userId
      ∧ ((w.update staleMs now db).data job).createdAt = job.createdAt := by
    intro job
    cases w <;> exact ⟨rfl, rfl, rfl⟩
  constructor
  · intro job
    unfold Update.apply
    split
    · apply (hdata job).1
    · rfl
  · intro job
    unfold Update.apply
    split
    · apply (hdata job).2.1
    · rfl
  · intro job
    unfold Update.apply
    split
    · apply (hdata job).2.2
    · rfl
  · intro job hterminal
    rw [Update.on_apply]
    split
    · apply Update.apply_of_not_guard
      by_contra hne
      have hactive := w.active_of_guard (Bool.not_eq_false _ ▸ hne)
      apply (mem_terminal_iff job.status).mp hterminal hactive
    · rfl

/-- A step of the worker system that inserts no job keeps the jobs, and the owners of documents. -/
theorem keeps_of_worker_step {config : OcrConfig} {unicode : Unicode} {s s' : OcrWorker.State}
    {a : OcrWorker.Label} (h : OcrWorker.step config unicode s a = some s')
    (ha : a.createsJob = false) :
  (∃ f, Keeps f ∧ s'.db.ocrJobs.rows = s.db.ocrJobs.rows.map f)
  ∧ ∀ id userId, s.db.ownerOf id = some userId → s'.db.ownerOf id = some userId
  := by
  generalize s'.db = db', OcrWorker.databaseStep_of_step h = hdb
  cases hdb with
  | same hjobs hpages howner =>
      refine ⟨⟨id, Keeps.id, ?_⟩, howner⟩
      rw [hjobs, List.map_id]
  | create hcreates hjobs =>
      rw [ha] at hcreates
      cases hcreates
  | write w hpersist =>
      constructor
      · refine ⟨_, keeps_write w config.staleJobMs s.now s.db, ?_⟩
        rw [Write.perform_ocrJobs, Table.rows_updateMany]
      · intro id userId howner
        rw [Write.ownerOf_perform]
        apply howner

variable {config : OcrConfig} {unicode : Unicode} {hashtext : ℕ → ℕ}

/-- The steps of a call.  A call goes on under the lock only after it has seen that no job of the
document is active, or that the latest one can be retried. -/
inductive Call.Acts (config : OcrConfig) (hashtext : ℕ → ℕ) (s : State) (c : Call)
    (action : Action) : Effect → Prop where
  | ends {result : Except AppException OcrRequestResult} :
      Acts config hashtext s c action ⟨.returned result, none⟩
  | rejects : Acts config hashtext s c action ⟨.rejected, none⟩
  | owns {document : Document} {phase : Phase}
      (hdocument : DocumentsService.getOwned s.worker.db.documents c.userId c.documentId
        = .ok document)
      (hphase : (∃ dto, phase = .owned document dto) ∨ phase = .waiting .retry) :
      Acts config hashtext s c action ⟨phase, none⟩
  | waits {document : Document} {dto : RequestOcrDto} {goal : Goal}
      (hphase : c.phase = .owned document dto) : Acts config hashtext s c action ⟨.waiting goal, none⟩
  | locks {goal : Goal} (hphase : c.phase = .waiting goal)
      (hfree : lockFree hashtext s.calls c.documentId) :
      Acts config hashtext s c action ⟨.locked goal, none⟩
  | finds {goal : Goal} {phase : Phase} {language : JsString} (hphase : c.phase = .locked goal)
      (hfound : OcrJobService.activeForDocument s.worker.db c.documentId = none
        ∨ ∃ latest, latest.status ∈ RETRYABLE_STATUSES
          ∧ OcrJobService.latestForDocument s.worker.db c.documentId c.userId = some latest)
      (hnext : phase = .searching language ∨ phase = .counting language
        ∨ phase = .resolving language) : Acts config hashtext s c action ⟨phase, none⟩
  | goes {language language' : JsString}
      (hphase : c.phase = .searching language ∨ c.phase = .resolving language) :
      Acts config hashtext s c action ⟨.counting language', none⟩
  | counts {language : JsString} (hphase : c.phase = .counting language)
      (hlt : OcrJobService.countActiveForUser s.worker.db c.userId
        < config.limits.maxActiveJobsPerUser) : Acts config hashtext s c action ⟨.counted language, none⟩
  | admits {language : JsString} (hphase : c.phase = .counted language)
      (hlt : OcrJobService.countForDocument s.worker.db c.documentId
        < config.limits.maxJobsPerDocument) : Acts config hashtext s c action ⟨.admitted language, none⟩
  | inserts {language : JsString} {id createdAt : ℕ} (hphase : c.phase = .admitted language) :
      Acts config hashtext s c action ⟨.inserted id language createdAt, none⟩
  | commits {language : JsString} {id createdAt : ℕ}
      (hphase : c.phase = .inserted id language createdAt) (haction : action = .advance) :
      Acts config hashtext s c action
        ⟨.returned (.ok ⟨createdJob config id c.userId c.documentId language createdAt, .created⟩),
          some (.createJob id c.userId c.documentId language createdAt)⟩

theorem Call.advance_acts {s : State} {c : Call} {e : Effect}
    (h : c.advance config hashtext s = some e) :
  c.Acts config hashtext s .advance e
  := by
  have hfail : ∀ {error : AppException}, OcrService.fail error = some e →
      c.Acts config hashtext s .advance e := by
    rintro error ⟨⟩
    apply Acts.ends
  unfold advance at h
  cases hphase : c.phase with
  | called =>
      simp only [hphase] at h
      split at h
      · apply hfail h
      · split at h
        · apply hfail h
        · rename_i document hdocument
          split at h
          · obtain rfl := Option.some.inj h
            exact .owns hdocument (.inl ⟨_, rfl⟩)
          · split at h
            · apply hfail h
            · obtain rfl := Option.some.inj h
              exact .owns hdocument (.inr rfl)
  | waiting goal =>
      simp only [hphase] at h
      split at h
      · rename_i hfree
        obtain rfl := Option.some.inj h
        exact .locks hphase hfree
      · cases h
  | locked goal =>
      cases goal with
      | request language force =>
          simp only [hphase] at h
          split at h
          · split at h
            · obtain rfl := Option.some.inj h
              apply Acts.ends
            · apply hfail h
          · rename_i hnone
            split at h
            · obtain rfl := Option.some.inj h
              exact .finds hphase (.inl hnone) (.inr (.inl rfl))
            · obtain rfl := Option.some.inj h
              exact .finds hphase (.inl hnone) (.inl rfl)
      | retry =>
          simp only [hphase] at h
          split at h
          · apply hfail h
          · rename_i latest hlatest
            split at h
            · apply hfail h
            · rename_i hretryable
              split at h
              · apply hfail h
              · obtain rfl := Option.some.inj h
                exact .finds hphase (.inr ⟨latest, not_not.mp hretryable, hlatest⟩)
                  (.inr (.inr rfl))
  | searching language =>
      simp only [hphase] at h
      split at h
      · obtain rfl := Option.some.inj h
        exact .goes (.inl hphase)
      · split at h
        · obtain rfl := Option.some.inj h
          apply Acts.ends
        · obtain rfl := Option.some.inj h
          exact .goes (.inl hphase)
  | counting language =>
      simp only [hphase] at h
      split at h
      · apply hfail h
      · rename_i hlt
        obtain rfl := Option.some.inj h
        exact .counts hphase (Nat.lt_of_not_le hlt)
  | counted language =>
      simp only [hphase] at h
      split at h
      · apply hfail h
      · rename_i hlt
        obtain rfl := Option.some.inj h
        exact .admits hphase (Nat.lt_of_not_le hlt)
  | inserted id language createdAt =>
      simp only [hphase] at h
      obtain rfl := Option.some.inj h
      exact .commits hphase rfl
  | _ => simp [hphase] at h

/-- Every step of a call is one of these. -/
theorem Call.act_acts {s : State} {c : Call} {action : Action} {e : Effect}
    (h : c.act config hashtext s action = some e) :
  c.Acts config hashtext s action e
  := by
  have hfail : ∀ {error : AppException}, OcrService.fail error = some e →
      c.Acts config hashtext s action e := by
    rintro error ⟨⟩
    apply Acts.ends
  cases action with
  | advance => apply advance_acts h
  | resolve available =>
      simp only [act] at h
      split at h
      · rename_i hphase
        split at h
        · apply hfail h
        · split at h
          · apply hfail h
          · obtain rfl := Option.some.inj h
            exact .waits hphase
      · rename_i hphase
        split at h
        · apply hfail h
        · obtain rfl := Option.some.inj h
          exact .goes (.inr hphase)
      · cases h
  | create id createdAt =>
      simp only [act] at h
      split at h
      · rename_i hphase
        obtain rfl := Option.some.inj h
        exact .inserts hphase
      · cases h
  | throw =>
      simp only [act] at h
      split at h
      · cases h
      · cases h
      · obtain rfl := Option.some.inj h
        apply Acts.rejects

/-- The steps of the system, one constructor a kind. -/
inductive LabelStep (config : OcrConfig) (unicode : Unicode) (hashtext : ℕ → ℕ) (s : State) :
    Label → State → Prop where
  | worker {a : OcrWorker.Label} {worker : OcrWorker.State} (ha : a.createsJob = false)
      (hworker : OcrWorker.step config unicode s.worker a = some worker) :
      LabelStep config unicode hashtext s (.worker a) { s with worker }
  | calls {id userId documentId : ℕ} {operation : Operation} {calls : Table Call.id}
      (hcreate : s.calls.create { id, userId, documentId, operation, phase := .called }
        = some calls) :
      LabelStep config unicode hashtext s (.call id userId documentId operation) { s with calls }
  | goes {c : Call} {action : Action} {phase : Phase} (hc : s.calls.find c.id = some c)
      (hact : c.act config hashtext s action = some ⟨phase, none⟩) :
      LabelStep config unicode hashtext s (.step c.id action)
        { s with calls := s.calls.put { c with phase } }
  | commits {c : Call} {action : Action} {phase : Phase} {a : OcrWorker.Label}
      {worker : OcrWorker.State} (hc : s.calls.find c.id = some c)
      (hact : c.act config hashtext s action = some ⟨phase, some a⟩)
      (hworker : OcrWorker.step config unicode s.worker a = some worker) :
      LabelStep config unicode hashtext s (.step c.id action)
        { worker, calls := s.calls.put { c with phase } }

theorem labelStep_of_step {s s' : State} {a : Label}
    (h : step config unicode hashtext s a = some s') :
  LabelStep config unicode hashtext s a s'
  := by
  cases a with
  | worker a =>
      simp only [step] at h
      split at h
      · cases h
      · rename_i ha
        obtain ⟨worker, hworker, h⟩ := Option.bind_eq_some_iff.mp h
        obtain rfl := Option.some.inj h
        exact .worker (Bool.not_eq_true _ ▸ ha) hworker
  | call id userId documentId operation =>
      obtain ⟨calls, hcreate, h⟩ := Option.bind_eq_some_iff.mp h
      obtain rfl := Option.some.inj h
      exact .calls hcreate
  | step callId action =>
      obtain ⟨c, hc, h⟩ := Option.bind_eq_some_iff.mp h
      obtain ⟨⟨phase, commit⟩, hact, h⟩ := Option.bind_eq_some_iff.mp h
      obtain rfl := Table.key_of_find hc
      cases commit with
      | none =>
          obtain rfl := Option.some.inj h
          exact .goes hc hact
      | some a =>
          obtain ⟨worker, hworker, h⟩ := Option.bind_eq_some_iff.mp h
          obtain rfl := Option.some.inj h
          exact .commits hc hact hworker

/-- The step is the next statement of the call. -/
def Label.advances (callId : ℕ) : Label → Bool
  | .step id .advance => id = callId
  | _ => false

/-- The steps of the system, by what they do to jobs and calls. -/
inductive Moves (config : OcrConfig) (hashtext : ℕ → ℕ) (s : State) (a : Label) : State → Prop where
  | worker {worker : OcrWorker.State} {f : OcrJob → OcrJob} (hf : Keeps f)
      (hrows : worker.db.ocrJobs.rows = s.worker.db.ocrJobs.rows.map f)
      (howner : ∀ id userId, s.worker.db.ownerOf id = some userId →
        worker.db.ownerOf id = some userId) :
      Moves config hashtext s a { s with worker }
  | call {calls : Table Call.id} {c : Call} (hcalls : s.calls.create c = some calls)
      (hphase : c.phase = .called) : Moves config hashtext s a { s with calls }
  | quiet {c : Call} {action : Action} {phase : Phase} (hc : s.calls.find c.id = some c)
      (hacts : c.Acts config hashtext s action ⟨phase, none⟩) :
      Moves config hashtext s a { s with calls := s.calls.put { c with phase } }
  | commit {c : Call} {id : ℕ} {language : JsString} {createdAt : ℕ} {ocrJobs : Table OcrJob.id}
      {result : Except AppException OcrRequestResult} (hc : s.calls.find c.id = some c)
      (ha : a.advances c.id = true)
      (hphase : c.phase = .inserted id language createdAt)
      (hcreate : s.worker.db.ocrJobs.create
        (createdJob config id c.userId c.documentId language createdAt) = some ocrJobs) :
      Moves config hashtext s a
        { worker := { s.worker with db := { s.worker.db with ocrJobs } }
          calls := s.calls.put { c with phase := .returned result } }

theorem moves_of_step {s s' : State} {a : Label}
    (h : step config unicode hashtext s a = some s') :
  Moves config hashtext s a s'
  := by
  cases labelStep_of_step h with
  | worker ha hworker =>
      obtain ⟨⟨f, hf, hrows⟩, howner⟩ := keeps_of_worker_step hworker ha
      exact .worker hf hrows howner
  | calls hcreate => exact .call hcreate rfl
  | goes hc hact => exact .quiet hc (Call.act_acts hact)
  | commits hc hact hworker =>
      cases Call.act_acts hact with
      | commits hphase haction =>
          subst haction
          cases OcrWorker.moves_of_step hworker with
          | creates hcreate => exact .commit hc (decide_eq_true rfl) hphase hcreate

/-- A run of the system is a run of the worker system, in which the commits are the insertions of
jobs. -/
theorem run_worker {s s' : State} {ts : List (Transition State Label)}
    (h : (system config unicode hashtext).Run s ts s') :
  ∃ ts', (OcrWorker.system config unicode).Run s.worker ts' s'.worker
  := by
  induction h with
  | nil s => exact ⟨[], .nil s.worker⟩
  | @cons s s₁ s' a ts hstep hrun ih =>
      obtain ⟨ts', hrun'⟩ := ih
      have hworker : s₁.worker = s.worker
          ∨ ∃ b, OcrWorker.step config unicode s.worker b = some s₁.worker := by
        cases labelStep_of_step hstep with
        | worker ha hworker => exact .inr ⟨_, hworker⟩
        | commits hc hact hworker => exact .inr ⟨_, hworker⟩
        | calls | goes => exact .inl rfl
      rcases hworker with heq | ⟨b, hb⟩
      · exact ⟨ts', heq ▸ hrun'⟩
      · exact ⟨_, .cons hb hrun'⟩

end OcrService

end DocuAI
