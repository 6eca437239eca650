import DocuAI.Library.Transition
import DocuAI.Ocr.JobService

/-!
# The worker and the reconciler

Any number of worker processes, each one delivery of a job, and of reconciler instances work on one
database.  A process is at a phase of `process` or `run` and moves by one statement of its program
at a time; it may stall anywhere, die anywhere, and any call it makes may throw.  What the queue
delivers, what the tools and the object storage answer, and when time passes is up to the labels.

`Process.act` says what one step of a process sends to the database and where the process goes from
there once the database has replied.
-/

namespace DocuAI

/-- The row `createJob` inserts, with the defaults of the schema. -/
def OcrService.createdJob (config : OcrConfig) (id userId documentId : ℕ) (language : JsString)
    (createdAt : ℕ) : OcrJob where
  id := id
  documentId := documentId
  userId := userId
  status := .QUEUED
  language := language
  extractionMethod := none
  totalPages := none
  processedPages := 0
  failedPages := 0
  errorCode := none
  errorMessage := none
  attemptCount := 0
  maxAttempts := config.maxAttempts
  heartbeatAt := none
  startedAt := none
  completedAt := none
  createdAt := createdAt

namespace OcrWorker

/-! ### Downloading -/

/-- What the object storage answers to a download: an error, nothing, or an object with the size it
announces, the chunks that arrive, and the error that ends them early. -/
inductive ObjectStream where
  | thrown (error : Thrown)
  | missing
  | object (size : Option ℕ) (chunks : List ℕ) (failure : Option JsString)
  deriving DecidableEq

def fileTooLarge (maxBytes : ℕ) : Thrown :=
  .processing (.ofPermanent .OCR_FILE_TOO_LARGE
    (js "Documents larger than " ++ jsNat maxBytes ++ js " bytes cannot be processed") none)

/-- The limiter: it fails as soon as more than `maxBytes` arrive. -/
def receive (maxBytes : ℕ) (failure : Option JsString) : ℕ → List ℕ → Except Thrown Unit
  | _, [] =>
      match failure with
      | none => .ok ()
      | some message =>
          .error (.processing (.transient .OCR_STORAGE_ERROR
            (js "The document could not be read from storage") (some message)))
  | received, chunk :: chunks =>
      if maxBytes < received + chunk then .error (fileTooLarge maxBytes)
      else receive maxBytes failure (received + chunk) chunks

/-- Streams the stored object to the work directory. -/
def download (maxBytes : ℕ) : ObjectStream → Except Thrown Unit
  | .thrown (.storage _) =>
      .error (.processing (.transient .OCR_STORAGE_ERROR
        (js "The document could not be read from storage") none))
  | .thrown error => .error error
  | .missing =>
      .error (.processing (.ofPermanent .OCR_STORAGE_ERROR
        (js "The stored file for this document is missing") none))
  | .object size chunks failure =>
      if size.any (maxBytes < ·) then .error (fileTooLarge maxBytes)
      else receive maxBytes failure 0 chunks

/-- The limiter throws that the document is too large, or that it cannot be read. -/
theorem error_of_receive {maxBytes received : ℕ} {failure : Option JsString} {chunks : List ℕ}
    {error : Thrown} (h : receive maxBytes failure received chunks = .error error) :
  error = fileTooLarge maxBytes
  ∨ ∃ message detail, error = .processing (.transient .OCR_STORAGE_ERROR message detail)
  := by
  induction chunks generalizing received with
  | nil =>
      unfold receive at h
      split at h
      · cases h
      · exact .inr ⟨_, _, (Except.error.inj h).symm⟩
  | cons chunk chunks ih =>
      unfold receive at h
      split at h
      · exact .inl (Except.error.inj h).symm
      · exact ih h

/-- A download throws that the document is too large or cannot be read, what the object storage
threw, or that nothing is stored. -/
theorem error_of_download {maxBytes : ℕ} {stream : ObjectStream} {error : Thrown}
    (h : download maxBytes stream = .error error) :
  (error = fileTooLarge maxBytes
    ∨ ∃ message detail, error = .processing (.transient .OCR_STORAGE_ERROR message detail))
  ∨ stream = .thrown error
  ∨ stream = .missing ∧ ∃ message,
    error = .processing (.ofPermanent .OCR_STORAGE_ERROR message none)
  := by
  cases stream with
  | thrown thrown =>
      cases thrown with
      | storage message => exact .inl (.inr ⟨_, _, (Except.error.inj h).symm⟩)
      | processing _ | other _ => exact .inr (.inl (congrArg _ (Except.error.inj h)))
  | missing => exact .inr (.inr ⟨rfl, _, (Except.error.inj h).symm⟩)
  | object size chunks failure =>
      simp only [download] at h
      split at h
      · exact .inl (.inl (Except.error.inj h).symm)
      · exact .inl (error_of_receive h)

/-! ### Processes -/

/-- Where `process(ocrJobId)` stands: the statement it executes next. -/
inductive Phase where
  /-- `findById`, the first statement of `process`. -/
  | delivered
  /-- `claim`. -/
  | found (job : OcrJob)
  /-- `findById`, after a successful claim. -/
  | claimed (job : OcrJob)
  /-- `fail`, when the attempt budget is exhausted. -/
  | exhausted
  /-- `mkdtemp`, with the heartbeat timer started. -/
  | starting (job : OcrJob)
  /-- The first statement of `run`: looking the document up. -/
  | loading (job : OcrJob)
  /-- `cancel`. -/
  | cancelling (job : OcrJob)
  | downloading (job : OcrJob) (document : Document)
  | inspecting (job : OcrJob) (document : Document)
  /-- `setTotalPages`. -/
  | measured (job : OcrJob) (document : Document) (inspected : InspectedFile)
  /-- `persistedProgress`. -/
  | resuming (job : OcrJob) (inspected : InspectedFile)
  /-- Resuming the generator of the pages. -/
  | extracting (job : OcrJob) (extraction : Extraction)
  /-- `persistPage`. -/
  | yielded (job : OcrJob) (page : ExtractedPage) (rest : Extraction)
  /-- `finalize`. -/
  | finalizing (job : OcrJob)
  /-- About to return from `run`. -/
  | concluding (job : OcrJob)
  /-- `handleFailure`: `fail` or `requeue`. -/
  | failing (job : OcrJob) (error : Thrown)
  | returned
  | dead
  deriving DecidableEq

/-- From a successful claim until `process` returns or dies. -/
def Phase.holds : Phase → Bool
  | .delivered | .found _ | .returned | .dead => false
  | _ => true

/-- Inside `run`. -/
def Phase.inRun : Phase → Bool
  | .loading _ | .cancelling _ | .downloading _ _ | .inspecting _ _ | .measured _ _ _
  | .resuming _ _ | .extracting _ _ | .yielded _ _ _ | .finalizing _ | .concluding _ => true
  | _ => false

/-- The progress of a process.  Its attempt and its last heartbeat are what its own writes
amount to: nothing in the program reads them. -/
structure Progress where
  phase : Phase
  /-- The heartbeat timer was started.  What it sent may arrive after `process` has returned. -/
  timer : Bool
  /-- The attempt that its claim began, `0` before it. -/
  attempt : ℕ
  /-- The last time it renewed the heartbeat of its job. -/
  lastBeat : ℕ
  deriving DecidableEq

/-- One delivery of a job to a worker. -/
structure Process extends Progress where
  id : ℕ
  jobId : ℕ
  deriving DecidableEq

/-- What a process meets in a step, besides the database. -/
inductive Action where
  /-- The next statement. -/
  | advance
  /-- The statement of `claim`, whose threshold was computed at the time `readAt`. -/
  | claim (readAt : ℕ)
  /-- The download, with what the storage answers. -/
  | download (stream : ObjectStream)
  /-- The inspection, with what the file shows. -/
  | inspect (probe : FileProbe)
  /-- The next page, with what the tools answer. -/
  | extract (tools : Tools)
  /-- A statement of the heartbeat timer. -/
  | heartbeat
  /-- A call throws, its effect undone or left out. -/
  | throw (error : Thrown)
  /-- The process is killed. -/
  | die

/-- What a step sends to the database, and the progress once the database has replied. -/
structure Effect where
  write : Option Write
  next : Bool → Progress

/-- A step that sends nothing. -/
def quiet (next : Progress) : Option Effect :=
  some ⟨none, fun _ => next⟩

/-- A step that sends a write. -/
def send (write : Write) (next : Bool → Progress) : Option Effect :=
  some ⟨some write, next⟩

def attemptsExhausted : JsString :=
  js "Processing was interrupted and the attempt budget is exhausted"

namespace Process

variable (config : OcrConfig) (unicode : Unicode) (db : Database) (now : ℕ) (q : Process)

/-- The progress with another phase. -/
def goTo (phase : Phase) : Progress :=
  { q.toProgress with phase }

/-- The progress with another phase, and the heartbeat renewed when the write succeeded. -/
def renewTo (phase : Phase) (reply : Bool) : Progress :=
  { q.toProgress with phase, lastBeat := if reply then now else q.lastBeat }

/-- The first decision of `run`: whether the document is there to be processed. -/
def load (job : OcrJob) : Phase :=
  let document := (db.documents.find job.documentId).filter fun document =>
    document.userId = job.userId && document.deletedAt.isNone
  match document with
  | none => .cancelling job
  | some document =>
      if document.status ≠ .READY ∨ document.storageKey = none then .cancelling job
      else if document.fileSize.any (config.limits.maxFileSizeBytes < ·) then
        .failing job (fileTooLarge config.limits.maxFileSizeBytes)
      else .downloading job document

/-- What `run` hands to the extraction: the pages after the last one stored. -/
def extractionInput (job : OcrJob) (inspected : InspectedFile) : ExtractionInput :=
  let progress := OcrJobService.persistedProgress db q.jobId
  { inspected
    language := job.language
    deadline := now + config.jobTimeoutMs
    startPage := progress.1 + 1
    charBudget := (config.limits.maxTextPerDocument : ℤ) - progress.2 }

/-- `handleFailure`: the job is failed for good or returned to the queue. -/
def handleFailure (job : OcrJob) (error : Thrown) : Write :=
  let failure := toProcessingError error
  if failure.permanent ∨ job.maxAttempts ≤ job.attemptCount then
    .fail q.jobId failure.code failure.message
  else .requeue q.jobId failure.code failure.message

/-- The next statement. -/
def advance : Option Effect :=
  match q.phase with
  | .delivered =>
      match OcrJobService.findById db q.jobId with
      | none => quiet (q.goTo .returned)
      | some job =>
          if job.status ∈ TERMINAL_OCR_STATUSES then quiet (q.goTo .returned)
          else quiet (q.goTo (.found job))
  | .claimed job =>
      let claimedJob := (OcrJobService.findById db q.jobId).getD job
      if claimedJob.maxAttempts < claimedJob.attemptCount then quiet (q.goTo .exhausted)
      else quiet { q.goTo (.starting claimedJob) with timer := true }
  | .exhausted =>
      send (.fail q.jobId .OCR_WORKER_INTERRUPTED attemptsExhausted) fun _ => q.goTo .returned
  | .starting job => quiet (q.goTo (.loading job))
  | .loading job => quiet (q.goTo (load config db job))
  | .cancelling job =>
      send (.cancel q.jobId .OCR_DOCUMENT_UNAVAILABLE
        (js "The document is no longer available for processing")) fun _ => q.goTo (.concluding job)
  | .measured job document inspected =>
      send (.setTotalPages q.jobId document.id inspected.totalPages)
        (q.renewTo now (.resuming job inspected))
  | .resuming job inspected =>
      quiet (q.goTo (.extracting job (.started (q.extractionInput config db now job inspected))))
  | .yielded job page rest =>
      send (.persistPage q.jobId page) (q.renewTo now (.extracting job rest))
  | .finalizing job => send (.finalize q.jobId) fun _ => q.goTo (.concluding job)
  | .concluding _ => quiet (q.goTo .returned)
  | .failing job error => send (q.handleFailure job error) fun _ => q.goTo .returned
  | _ => none

/-- A call throws.  Before `run`, `process` rejects; `run` hands every error to `handleFailure`,
and what that throws `process` rejects with. -/
def throw (error : Thrown) : Option Effect :=
  match q.phase with
  | .delivered | .found _ | .claimed _ | .exhausted | .starting _ | .failing _ _ =>
      quiet (q.goTo .returned)
  | .loading job | .cancelling job | .downloading job _ | .inspecting job _ | .measured job _ _
  | .resuming job _ | .extracting job _ | .yielded job _ _ | .finalizing job | .concluding job =>
      quiet (q.goTo (.failing job error))
  | .returned | .dead => none

/-- One step of a process. -/
def act : Action → Option Effect
  | .advance => q.advance config db now
  | .claim readAt =>
      match q.phase with
      | .found job =>
          if readAt ≤ now then
            send (.claim q.jobId readAt) fun claimed =>
              if claimed then
                { phase := .claimed job
                  timer := q.timer
                  attempt := (OcrJobService.findById db q.jobId).elim 0 (·.attemptCount + 1)
                  lastBeat := now }
              else q.goTo .returned
          else none
      | _ => none
  | .download stream =>
      match q.phase with
      | .downloading job document =>
          match download config.limits.maxFileSizeBytes stream with
          | .ok _ => quiet (q.goTo (.inspecting job document))
          | .error error => quiet (q.goTo (.failing job error))
      | _ => none
  | .inspect probe =>
      match q.phase with
      | .inspecting job document =>
          match inspect config document.mimeType probe with
          | .ok inspected => quiet (q.goTo (.measured job document inspected))
          | .error error => quiet (q.goTo (.failing job error))
      | _ => none
  | .extract tools =>
      match q.phase with
      | .extracting job extraction =>
          match extraction.next config unicode tools now with
          | .page page rest => quiet (q.goTo (.yielded job page rest))
          | .done => quiet (q.goTo (.finalizing job))
          | .thrown error => quiet (q.goTo (.failing job error))
      | _ => none
  | .heartbeat =>
      if q.timer then send (.heartbeat q.jobId) (q.renewTo now q.phase) else none
  | .throw error => q.throw error
  | .die =>
      match q.phase with
      | .returned | .dead => none
      | _ => quiet (q.goTo .dead)

end Process

/-! ### The system -/

/-- One instance of the reconciler, with the jobs its pass has still to look at as it read them. -/
structure Reconciler where
  id : ℕ
  remaining : List OcrJob
  deriving DecidableEq

/-- What the reconciler sends for a stale job of its snapshot. -/
def Reconciler.write (job : OcrJob) (readAt : ℕ) : Write :=
  if job.maxAttempts ≤ job.attemptCount then
    .fail job.id .OCR_WORKER_INTERRUPTED attemptsExhausted
  else .recover job.id readAt

structure State where
  now : ℕ
  db : Database
  processes : Table Process.id
  reconcilers : Table Reconciler.id

inductive Label where
  /-- Time passes. -/
  | tick (ms : ℕ)
  /-- The API inserts a job. -/
  | createJob (id userId documentId : ℕ) (language : JsString) (createdAt : ℕ)
  /-- The API inserts or changes a document, whose owner never changes. -/
  | writeDocument (document : Document)
  /-- The queue delivers a job to a worker. -/
  | deliver (processId jobId : ℕ)
  | process (processId : ℕ) (action : Action)
  /-- An idle reconciler starts a pass and reads the stale jobs. -/
  | reconcile (reconcilerId readAt : ℕ)
  /-- A reconciler treats the next job of its pass. -/
  | reconcileNext (reconcilerId readAt : ℕ)
  /-- A pass ends with an error. -/
  | reconcileAbort (reconcilerId : ℕ)

section

variable (config : OcrConfig) (unicode : Unicode)

/-- The state once a process has done a step. -/
def State.apply (s : State) (q : Process) (e : Effect) : State :=
  match e.write with
  | none => { s with processes := s.processes.put { q with toProgress := e.next false } }
  | some w =>
      let sent := w.perform config.staleJobMs s.now s.db
      { s with
        db := sent.1
        processes := s.processes.put { q with toProgress := e.next sent.2 } }

/-- One step of the system. -/
def step (s : State) : Label → Option State
  | .tick ms => some { s with now := s.now + ms }
  | .createJob id userId documentId language createdAt => do
      let job := OcrService.createdJob config id userId documentId language createdAt
      let ocrJobs ← s.db.ocrJobs.create job
      some { s with db := { s.db with ocrJobs } }
  | .writeDocument document =>
      if (s.db.documents.find document.id).all (·.userId = document.userId) then
        some { s with db := { s.db with documents := s.db.documents.put document } }
      else none
  | .deliver processId jobId => do
      let processes ← s.processes.create
        { id := processId, jobId, phase := .delivered, timer := false, attempt := 0, lastBeat := 0 }
      some { s with processes }
  | .process processId action => do
      let q ← s.processes.find processId
      let e ← q.act config unicode s.db s.now action
      some (s.apply config q e)
  | .reconcile reconcilerId readAt =>
      if readAt ≤ s.now ∧ (s.reconcilers.find reconcilerId).all (·.remaining = []) then
        let remaining := OcrJobService.findStaleProcessing s.db config.staleJobMs readAt
        some { s with reconcilers := s.reconcilers.put { id := reconcilerId, remaining } }
      else none
  | .reconcileNext reconcilerId readAt => do
      let r ← s.reconcilers.find reconcilerId
      match r.remaining with
      | [] => none
      | job :: remaining =>
          if readAt ≤ s.now then
            let sent := (Reconciler.write job readAt).perform config.staleJobMs s.now s.db
            some { s with db := sent.1, reconcilers := s.reconcilers.put { r with remaining } }
          else none
  | .reconcileAbort reconcilerId => do
      let r ← s.reconcilers.find reconcilerId
      some { s with reconcilers := s.reconcilers.put { r with remaining := [] } }

/-- The worker system.  Runs start without jobs and without workers. -/
def system : TransitionSystem State Label where
  init s :=
    s.db.ocrJobs.rows = [] ∧ s.db.ocrPages.rows = [] ∧ s.processes.rows = []
      ∧ s.reconcilers.rows = []
  step := step config unicode

end

/-! ### What a step of a process can be -/

variable {config : OcrConfig} {unicode : Unicode}

/-- The steps of a process, one constructor for each branch of its program: what the branch knows,
what it sends and the progress once the database has replied. -/
inductive Process.Moves (config : OcrConfig) (unicode : Unicode) (db : Database) (now : ℕ)
    (q : Process) : Action → Effect → Prop where
  | ignores (hphase : q.phase = .delivered) :
      Moves config unicode db now q .advance ⟨none, fun _ => q.goTo .returned⟩
  | finds {job : OcrJob} (hphase : q.phase = .delivered)
      (hjob : OcrJobService.findById db q.jobId = some job)
      (hactive : job.status ∉ TERMINAL_OCR_STATUSES) :
      Moves config unicode db now q .advance ⟨none, fun _ => q.goTo (.found job)⟩
  | claims {job : OcrJob} {readAt : ℕ} (hphase : q.phase = .found job) (hread : readAt ≤ now) :
      Moves config unicode db now q (.claim readAt) ⟨some (.claim q.jobId readAt), fun claimed =>
        if claimed then
          { phase := .claimed job
            timer := q.timer
            attempt := (OcrJobService.findById db q.jobId).elim 0 (·.attemptCount + 1)
            lastBeat := now }
        else q.goTo .returned⟩
  | exhausts {job : OcrJob} (hphase : q.phase = .claimed job)
      (hcount : ((OcrJobService.findById db q.jobId).getD job).maxAttempts
        < ((OcrJobService.findById db q.jobId).getD job).attemptCount) :
      Moves config unicode db now q .advance ⟨none, fun _ => q.goTo .exhausted⟩
  | starts {job : OcrJob} (hphase : q.phase = .claimed job)
      (hcount : ((OcrJobService.findById db q.jobId).getD job).attemptCount
        ≤ ((OcrJobService.findById db q.jobId).getD job).maxAttempts) :
      Moves config unicode db now q .advance ⟨none, fun _ =>
        { q.goTo (.starting ((OcrJobService.findById db q.jobId).getD job)) with timer := true }⟩
  | givesUp (hphase : q.phase = .exhausted) :
      Moves config unicode db now q .advance
        ⟨some (.fail q.jobId .OCR_WORKER_INTERRUPTED attemptsExhausted), fun _ => q.goTo .returned⟩
  | enters {job : OcrJob} (hphase : q.phase = .starting job) :
      Moves config unicode db now q .advance ⟨none, fun _ => q.goTo (.loading job)⟩
  | loads {job : OcrJob} (hphase : q.phase = .loading job) :
      Moves config unicode db now q .advance ⟨none, fun _ => q.goTo (load config db job)⟩
  | cancels {job : OcrJob} (hphase : q.phase = .cancelling job) :
      Moves config unicode db now q .advance
        ⟨some (.cancel q.jobId .OCR_DOCUMENT_UNAVAILABLE
          (js "The document is no longer available for processing")),
        fun _ => q.goTo (.concluding job)⟩
  | downloads {job : OcrJob} {document : Document} {stream : ObjectStream}
      (hphase : q.phase = .downloading job document)
      (hdownload : OcrWorker.download config.limits.maxFileSizeBytes stream = .ok ()) :
      Moves config unicode db now q (.download stream)
        ⟨none, fun _ => q.goTo (.inspecting job document)⟩
  | downloadFails {job : OcrJob} {document : Document} {stream : ObjectStream} {error : Thrown}
      (hphase : q.phase = .downloading job document)
      (hdownload : OcrWorker.download config.limits.maxFileSizeBytes stream = .error error) :
      Moves config unicode db now q (.download stream) ⟨none, fun _ => q.goTo (.failing job error)⟩
  | inspects {job : OcrJob} {document : Document} {probe : FileProbe} {inspected : InspectedFile}
      (hphase : q.phase = .inspecting job document)
      (hinspect : inspect config document.mimeType probe = .ok inspected) :
      Moves config unicode db now q (.inspect probe)
        ⟨none, fun _ => q.goTo (.measured job document inspected)⟩
  | inspectFails {job : OcrJob} {document : Document} {probe : FileProbe} {error : Thrown}
      (hphase : q.phase = .inspecting job document)
      (hinspect : inspect config document.mimeType probe = .error error) :
      Moves config unicode db now q (.inspect probe) ⟨none, fun _ => q.goTo (.failing job error)⟩
  | measures {job : OcrJob} {document : Document} {inspected : InspectedFile}
      (hphase : q.phase = .measured job document inspected) :
      Moves config unicode db now q .advance
        ⟨some (.setTotalPages q.jobId document.id inspected.totalPages),
        q.renewTo now (.resuming job inspected)⟩
  | resumes {job : OcrJob} {inspected : InspectedFile} (hphase : q.phase = .resuming job inspected) :
      Moves config unicode db now q .advance ⟨none, fun _ =>
        q.goTo (.extracting job (.started (q.extractionInput config db now job inspected)))⟩
  | yields {job : OcrJob} {extraction rest : Extraction} {tools : Tools} {page : ExtractedPage}
      (hphase : q.phase = .extracting job extraction)
      (hnext : extraction.next config unicode tools now = .page page rest) :
      Moves config unicode db now q (.extract tools) ⟨none, fun _ => q.goTo (.yielded job page rest)⟩
  | ends {job : OcrJob} {extraction : Extraction} {tools : Tools}
      (hphase : q.phase = .extracting job extraction)
      (hnext : extraction.next config unicode tools now = .done) :
      Moves config unicode db now q (.extract tools) ⟨none, fun _ => q.goTo (.finalizing job)⟩
  | extractFails {job : OcrJob} {extraction : Extraction} {tools : Tools} {error : Thrown}
      (hphase : q.phase = .extracting job extraction)
      (hnext : extraction.next config unicode tools now = .thrown error) :
      Moves config unicode db now q (.extract tools) ⟨none, fun _ => q.goTo (.failing job error)⟩
  | persists {job : OcrJob} {page : ExtractedPage} {rest : Extraction}
      (hphase : q.phase = .yielded job page rest) :
      Moves config unicode db now q .advance
        ⟨some (.persistPage q.jobId page), q.renewTo now (.extracting job rest)⟩
  | finalizes {job : OcrJob} (hphase : q.phase = .finalizing job) :
      Moves config unicode db now q .advance
        ⟨some (.finalize q.jobId), fun _ => q.goTo (.concluding job)⟩
  | concludes {job : OcrJob} (hphase : q.phase = .concluding job) :
      Moves config unicode db now q .advance ⟨none, fun _ => q.goTo .returned⟩
  | handles {job : OcrJob} {error : Thrown} {w : Write} (hphase : q.phase = .failing job error)
      (hw : w = q.handleFailure job error) :
      Moves config unicode db now q .advance ⟨some w, fun _ => q.goTo .returned⟩
  | beats (htimer : q.timer = true) :
      Moves config unicode db now q .heartbeat
        ⟨some (.heartbeat q.jobId), q.renewTo now q.phase⟩
  | rejects {error : Thrown} :
      Moves config unicode db now q (.throw error) ⟨none, fun _ => q.goTo .returned⟩
  | throws {job : OcrJob} {error : Thrown} (hrun : q.phase.inRun = true) :
      Moves config unicode db now q (.throw error) ⟨none, fun _ => q.goTo (.failing job error)⟩
  | dies : Moves config unicode db now q .die ⟨none, fun _ => q.goTo .dead⟩

theorem Process.moves_of_advance {db : Database} {now : ℕ} {q : Process} {e : Effect}
    (h : q.advance config db now = some e) :
  q.Moves config unicode db now .advance e
  := by
  unfold advance at h
  cases hphase : q.phase with
  | delivered =>
      simp only [hphase] at h
      split at h
      · obtain rfl := Option.some.inj h
        apply Moves.ignores hphase
      · rename_i hjob
        split at h
        · obtain rfl := Option.some.inj h
          apply Moves.ignores hphase
        · rename_i hactive
          obtain rfl := Option.some.inj h
          apply Moves.finds hphase hjob hactive
  | claimed job =>
      simp only [hphase] at h
      split at h
      · rename_i hcount
        obtain rfl := Option.some.inj h
        apply Moves.exhausts hphase hcount
      · rename_i hcount
        obtain rfl := Option.some.inj h
        apply Moves.starts hphase (Nat.le_of_not_lt hcount)
  | exhausted =>
      simp only [hphase] at h
      obtain rfl := Option.some.inj h
      apply Moves.givesUp hphase
  | starting job =>
      simp only [hphase] at h
      obtain rfl := Option.some.inj h
      apply Moves.enters hphase
  | loading job =>
      simp only [hphase] at h
      obtain rfl := Option.some.inj h
      apply Moves.loads hphase
  | cancelling job =>
      simp only [hphase] at h
      obtain rfl := Option.some.inj h
      apply Moves.cancels hphase
  | measured job document inspected =>
      simp only [hphase] at h
      obtain rfl := Option.some.inj h
      apply Moves.measures hphase
  | resuming job inspected =>
      simp only [hphase] at h
      obtain rfl := Option.some.inj h
      apply Moves.resumes hphase
  | yielded job page rest =>
      simp only [hphase] at h
      obtain rfl := Option.some.inj h
      apply Moves.persists hphase
  | finalizing job =>
      simp only [hphase] at h
      obtain rfl := Option.some.inj h
      apply Moves.finalizes hphase
  | concluding job =>
      simp only [hphase] at h
      obtain rfl := Option.some.inj h
      apply Moves.concludes hphase
  | failing job error =>
      simp only [hphase] at h
      obtain rfl := Option.some.inj h
      apply Moves.handles hphase rfl
  | _ => simp [hphase] at h

theorem Process.moves_of_throw {db : Database} {now : ℕ} {q : Process} {error : Thrown} {e : Effect}
    (h : q.throw error = some e) :
  q.Moves config unicode db now (.throw error) e
  := by
  have hrun : ∀ {job}, q.phase.inRun = true → some e = quiet (q.goTo (.failing job error)) →
      q.Moves config unicode db now (.throw error) e := by
    rintro job hrun ⟨⟩
    exact .throws hrun
  unfold Process.throw at h
  cases hphase : q.phase with
  | delivered | found _ | claimed _ | exhausted | starting _ | failing _ _ =>
      simp only [hphase] at h
      obtain rfl := Option.some.inj h
      apply Moves.rejects
  | returned | dead => simp [hphase] at h
  | _ =>
      simp only [hphase] at h
      apply hrun (by rw [hphase]; rfl) h.symm

/-- Every step of a process is one of these. -/
theorem Process.moves_of_act {db : Database} {now : ℕ} {q : Process} {a : Action} {e : Effect}
    (h : q.act config unicode db now a = some e) :
  q.Moves config unicode db now a e
  := by
  cases a with
  | advance => apply moves_of_advance h
  | claim readAt =>
      simp only [act] at h
      split at h
      · rename_i hphase
        split at h
        · rename_i hread
          obtain rfl := Option.some.inj h
          apply Moves.claims hphase hread
        · cases h
      · cases h
  | download stream =>
      simp only [act] at h
      split at h
      · rename_i hphase
        split at h
        · rename_i hdownload
          obtain rfl := Option.some.inj h
          apply Moves.downloads hphase hdownload
        · rename_i hdownload
          obtain rfl := Option.some.inj h
          apply Moves.downloadFails hphase hdownload
      · cases h
  | inspect probe =>
      simp only [act] at h
      split at h
      · rename_i hphase
        split at h
        · rename_i hinspect
          obtain rfl := Option.some.inj h
          apply Moves.inspects hphase hinspect
        · rename_i hinspect
          obtain rfl := Option.some.inj h
          apply Moves.inspectFails hphase hinspect
      · cases h
  | extract tools =>
      simp only [act] at h
      split at h
      · rename_i hphase
        split at h
        · rename_i hnext
          obtain rfl := Option.some.inj h
          apply Moves.yields hphase hnext
        · rename_i hnext
          obtain rfl := Option.some.inj h
          apply Moves.ends hphase hnext
        · rename_i hnext
          obtain rfl := Option.some.inj h
          apply Moves.extractFails hphase hnext
      · cases h
  | heartbeat =>
      simp only [act] at h
      split at h
      · rename_i htimer
        obtain rfl := Option.some.inj h
        apply Moves.beats htimer
      · cases h
  | throw error => apply moves_of_throw h
  | die =>
      simp only [act] at h
      split at h
      · cases h
      · cases h
      · obtain rfl := Option.some.inj h
        apply Moves.dies

/-- The steps of a process, by what they send.  Only a successful claim makes a process a holder,
and a write that ends or requeues the job, `finalize` and `cancel` apart, is the last of its
process. -/
inductive Process.Acts (now : ℕ) (q : Process) : Effect → Prop where
  | quiet {p : Progress} (hbeat : p.lastBeat = q.lastBeat)
      (hholds : p.phase.holds = true → q.phase.holds = true) :
      Acts now q ⟨none, fun _ => p⟩
  | claim {job : OcrJob} {readAt attempt : ℕ} (hphase : q.phase = .found job)
      (hread : readAt ≤ now) :
      Acts now q ⟨some (.claim q.jobId readAt), fun claimed =>
        if claimed then ⟨.claimed job, q.timer, attempt, now⟩ else q.goTo .returned⟩
  | heartbeat :
      Acts now q ⟨some (.heartbeat q.jobId), q.renewTo now q.phase⟩
  | measure {job : OcrJob} {document : Document} {inspected : InspectedFile}
      (hphase : q.phase = .measured job document inspected) :
      Acts now q ⟨some (.setTotalPages q.jobId document.id inspected.totalPages),
        q.renewTo now (.resuming job inspected)⟩
  | persist {job : OcrJob} {page : ExtractedPage} {rest : Extraction}
      (hphase : q.phase = .yielded job page rest) :
      Acts now q ⟨some (.persistPage q.jobId page), q.renewTo now (.extracting job rest)⟩
  | finalize {job : OcrJob} (hphase : q.phase = .finalizing job) :
      Acts now q ⟨some (.finalize q.jobId), fun _ => q.goTo (.concluding job)⟩
  | cancel {job : OcrJob} {errorCode : OcrErrorCode} {errorMessage : JsString}
      (hphase : q.phase = .cancelling job) :
      Acts now q ⟨some (.cancel q.jobId errorCode errorMessage), fun _ => q.goTo (.concluding job)⟩
  | fail {errorCode : OcrErrorCode} {errorMessage : JsString} (hholds : q.phase.holds = true) :
      Acts now q ⟨some (.fail q.jobId errorCode errorMessage), fun _ => q.goTo .returned⟩
  | requeue {errorCode : OcrErrorCode} {errorMessage : JsString} (hholds : q.phase.holds = true) :
      Acts now q ⟨some (.requeue q.jobId errorCode errorMessage), fun _ => q.goTo .returned⟩

/-- A phase of `run` is one of a holder. -/
theorem Phase.holds_of_inRun {phase : Phase} (h : phase.inRun = true) :
  phase.holds = true
  := by
  cases phase <;> simp_all [Phase.inRun, Phase.holds]

/-- Every step of a process is one of these. -/
theorem Process.act_acts {db : Database} {now : ℕ} {q : Process} {a : Action} {e : Effect}
    (h : q.act config unicode db now a = some e) :
  q.Acts now e
  := by
  have hgo : ∀ {phase : Phase}, (phase.holds = true → q.phase.holds = true) →
      q.Acts now ⟨none, fun _ => q.goTo phase⟩ := fun hholds => .quiet rfl hholds
  cases moves_of_act h with
  | ignores | finds | concludes | rejects | dies => exact hgo (by rintro ⟨⟩)
  | claims hphase hread => exact .claim hphase hread
  | starts hphase hcount => exact .quiet rfl fun _ => by rw [hphase]; rfl
  | givesUp hphase => exact .fail (by rw [hphase]; rfl)
  | cancels hphase => exact .cancel hphase
  | measures hphase => exact .measure hphase
  | persists hphase => exact .persist hphase
  | finalizes hphase => exact .finalize hphase
  | @handles job error _ hphase hw =>
      have hholds : q.phase.holds = true := by
        rw [hphase]
        rfl
      subst hw
      unfold handleFailure
      simp only
      split
      · exact .fail hholds
      · exact .requeue hholds
  | beats htimer => exact .heartbeat
  | throws hrun => exact hgo fun _ => Phase.holds_of_inRun hrun
  | exhausts hphase | enters hphase | loads hphase | downloads hphase | downloadFails hphase
  | inspects hphase | inspectFails hphase | resumes hphase | yields hphase | ends hphase
  | extractFails hphase => exact hgo fun _ => by rw [hphase]; rfl

/-- `run` begins with the end of the job, with an error, or with the download of the document. -/
theorem Process.load_cases {motive : Phase → Prop} {db : Database} {job : OcrJob}
    (hcancelling : motive (.cancelling job))
    (hfailing : motive (.failing job (fileTooLarge config.limits.maxFileSizeBytes)))
    (hdownloading : ∀ document, motive (.downloading job document)) :
  motive (load config db job)
  := by
  unfold load
  simp only
  split
  · exact hcancelling
  · split
    · exact hcancelling
    · split
      · exact hfailing
      · exact hdownloading _

/-- The write of a process is about its own job. -/
theorem Process.Acts.jobId_write {now : ℕ} {q : Process} {w : Write} {next : Bool → Progress}
    (h : q.Acts now ⟨some w, next⟩) :
  w.jobId = q.jobId
  := by
  cases h <;> rfl

/-! ### What a step does to the database -/

/-- The step is the next statement of the process. -/
def Label.advances (processId : ℕ) : Label → Bool
  | .process p .advance => p = processId
  | _ => false

/-- The step is one of the process. -/
def Label.isOf (processId : ℕ) : Label → Bool
  | .process p _ => p = processId
  | _ => false

theorem Label.eq_of_advances {processId : ℕ} {a : Label} (h : a.advances processId = true) :
  a = .process processId .advance
  := by
  unfold advances at h
  split at h
  · rw [of_decide_eq_true h]
  · cases h

theorem Label.eq_of_isOf {processId : ℕ} {a : Label} (h : a.isOf processId = true) :
  ∃ action, a = .process processId action
  := by
  unfold isOf at h
  split at h
  · rw [of_decide_eq_true h]
    exact ⟨_, rfl⟩
  · cases h

/-- The steps of the system, one constructor a kind. -/
inductive Moves (config : OcrConfig) (unicode : Unicode) (s : State) : Label → State → Prop where
  | ticks (ms : ℕ) : Moves config unicode s (.tick ms) { s with now := s.now + ms }
  | creates {id userId documentId createdAt : ℕ} {language : JsString} {ocrJobs : Table OcrJob.id}
      (hcreate : s.db.ocrJobs.create
        (OcrService.createdJob config id userId documentId language createdAt) = some ocrJobs) :
      Moves config unicode s (.createJob id userId documentId language createdAt)
        { s with db := { s.db with ocrJobs } }
  | writes {document : Document}
      (howner : (s.db.documents.find document.id).all (·.userId = document.userId) = true) :
      Moves config unicode s (.writeDocument document)
        { s with db := { s.db with documents := s.db.documents.put document } }
  | delivers {processId jobId : ℕ} {processes : Table Process.id}
      (hcreate : s.processes.create
        { id := processId, jobId, phase := .delivered, timer := false, attempt := 0, lastBeat := 0 }
          = some processes) :
      Moves config unicode s (.deliver processId jobId) { s with processes }
  | acts {q : Process} {action : Action} {e : Effect} (hq : s.processes.find q.id = some q)
      (hact : q.act config unicode s.db s.now action = some e) :
      Moves config unicode s (.process q.id action) (s.apply config q e)
  | reconciles {id readAt : ℕ} (hread : readAt ≤ s.now) :
      Moves config unicode s (.reconcile id readAt)
        { s with
          reconcilers := s.reconcilers.put
            { id, remaining := OcrJobService.findStaleProcessing s.db config.staleJobMs readAt } }
  | treats {r : Reconciler} {job : OcrJob} {remaining : List OcrJob} {readAt : ℕ}
      (hr : s.reconcilers.find r.id = some r) (hremaining : r.remaining = job :: remaining)
      (hread : readAt ≤ s.now) :
      Moves config unicode s (.reconcileNext r.id readAt)
        { s with
          db := ((Reconciler.write job readAt).perform config.staleJobMs s.now s.db).1
          reconcilers := s.reconcilers.put { r with remaining } }
  | aborts {r : Reconciler} (hr : s.reconcilers.find r.id = some r) :
      Moves config unicode s (.reconcileAbort r.id)
        { s with reconcilers := s.reconcilers.put { r with remaining := [] } }

/-- Every step of the system is one of the kinds. -/
theorem moves_of_step {s s' : State} {a : Label} (h : step config unicode s a = some s') :
  Moves config unicode s a s'
  := by
  cases a with
  | tick ms =>
      obtain rfl := Option.some.inj h
      exact .ticks ms
  | createJob id userId documentId language createdAt =>
      obtain ⟨ocrJobs, hcreate, h⟩ := Option.bind_eq_some_iff.mp h
      obtain rfl := Option.some.inj h
      exact .creates hcreate
  | writeDocument document =>
      simp only [step] at h
      split at h
      · rename_i howner
        obtain rfl := Option.some.inj h
        exact .writes howner
      · cases h
  | deliver processId jobId =>
      obtain ⟨processes, hcreate, h⟩ := Option.bind_eq_some_iff.mp h
      obtain rfl := Option.some.inj h
      exact .delivers hcreate
  | process processId action =>
      obtain ⟨q, hq, h⟩ := Option.bind_eq_some_iff.mp h
      obtain ⟨e, hact, h⟩ := Option.bind_eq_some_iff.mp h
      obtain rfl := Option.some.inj h
      obtain rfl := Table.key_of_find hq
      exact .acts hq hact
  | reconcile id readAt =>
      simp only [step] at h
      split at h
      · rename_i hread
        obtain rfl := Option.some.inj h
        exact .reconciles hread.1
      · cases h
  | reconcileNext id readAt =>
      obtain ⟨r, hr, h⟩ := Option.bind_eq_some_iff.mp h
      split at h
      · cases h
      · rename_i hremaining
        split at h
        · rename_i hread
          obtain rfl := Option.some.inj h
          obtain rfl := Table.key_of_find hr
          exact .treats hr hremaining hread
        · cases h
  | reconcileAbort id =>
      obtain ⟨r, hr, h⟩ := Option.bind_eq_some_iff.mp h
      obtain rfl := Option.some.inj h
      obtain rfl := Table.key_of_find hr
      exact .aborts hr

/-- What a step of a process does. -/
theorem target_of_step {s s' : State} {q : Process} {action : Action}
    (hq : q ∈ s.processes.rows) (h : step config unicode s (.process q.id action) = some s') :
  ∃ e, q.act config unicode s.db s.now action = some e ∧ s' = s.apply config q e
  := by
  obtain ⟨p, hp, hs'⟩ := Option.bind_eq_some_iff.mp h
  obtain ⟨e, hact, hs'⟩ := Option.bind_eq_some_iff.mp hs'
  rw [Table.mem_rows_iff.mp hq] at hp
  obtain rfl := Option.some.inj hp
  exact ⟨e, hact, (Option.some.inj hs').symm⟩

/-- A step that is neither the next statement of its process nor its claim sends nothing but a
heartbeat. -/
theorem write_of_act {db : Database} {now : ℕ} {q : Process} {a : Action} {e : Effect}
    (h : q.act config unicode db now a = some e) :
  a = .advance ∨ (∃ job, q.phase = .found job) ∨ e.write = none
    ∨ e.write = some (.heartbeat q.jobId)
  := by
  cases Process.moves_of_act h with
  | claims hphase hread => exact .inr (.inl ⟨_, hphase⟩)
  | beats htimer => exact .inr (.inr (.inr rfl))
  | downloads | downloadFails | inspects | inspectFails | yields | ends | extractFails | rejects
  | throws | dies => exact .inr (.inr (.inl rfl))
  | _ => exact .inl rfl

/-- The step inserts a job. -/
def Label.createsJob : Label → Bool
  | .createJob _ _ _ _ _ => true
  | _ => false

/-- What a step does to the database: nothing to jobs and pages, the insertion of a job, or a write.
Only the next statement of a process that has a page to store is `persistPage`. -/
inductive DatabaseStep (config : OcrConfig) (s : State) (a : Label) : Database → Prop where
  | same {db : Database} (hjobs : db.ocrJobs = s.db.ocrJobs) (hpages : db.ocrPages = s.db.ocrPages)
      (howner : ∀ id userId, s.db.ownerOf id = some userId → db.ownerOf id = some userId) :
      DatabaseStep config s a db
  | create {ocrJobs : Table OcrJob.id} {job : OcrJob} (ha : a.createsJob = true)
      (hjobs : s.db.ocrJobs.create job = some ocrJobs) :
      DatabaseStep config s a { s.db with ocrJobs }
  | write (w : Write)
      (hpersist : ∀ page, w = .persistPage w.jobId page → ∃ q ∈ s.processes.rows,
        q.jobId = w.jobId ∧ a.advances q.id = true ∧ ∃ job rest, q.phase = .yielded job page rest) :
      DatabaseStep config s a (w.perform config.staleJobMs s.now s.db).1

theorem databaseStep_of_step {s s' : State} {a : Label} (h : step config unicode s a = some s') :
  DatabaseStep config s a s'.db
  := by
  cases moves_of_step h with
  | ticks | delivers | reconciles | aborts => exact .same rfl rfl fun _ _ howner => howner
  | creates hcreate => exact .create rfl hcreate
  | writes howner =>
      refine .same rfl rfl ?_
      intro id userId hid
      simp only [Database.ownerOf, Table.find_put]
      split
      · rename_i heq
        subst heq
        obtain ⟨old, hold, rfl⟩ := Option.map_eq_some_iff.mp hid
        rw [hold] at howner
        simpa using (of_decide_eq_true howner).symm
      · exact hid
  | @acts q action e hq hact =>
      have hacts := Process.act_acts hact
      obtain ⟨write, next⟩ := e
      cases write with
      | none => exact .same rfl rfl fun _ _ howner => howner
      | some w =>
          apply DatabaseStep.write w
          rintro page hw
          obtain ⟨jobId, rfl⟩ : ∃ jobId, w = .persistPage jobId page := ⟨_, hw⟩
          cases hacts with
          | @persist job _ rest hphase =>
              refine ⟨q, Table.mem_of_find hq, rfl, ?_, job, rest, hphase⟩
              rcases write_of_act hact with rfl | ⟨job', hphase'⟩ | hnone | hheartbeat
              · exact decide_eq_true rfl
              · rw [hphase] at hphase'
                cases hphase'
              · cases hnone
              · cases hheartbeat
  | @treats _ job _ readAt =>
      apply DatabaseStep.write (Reconciler.write job readAt)
      intro page hw
      unfold Reconciler.write at hw
      split at hw
      · cases hw
      · cases hw

/-- The write a step sends to the database. -/
def Label.write (config : OcrConfig) (unicode : Unicode) (s : State) : Label → Option Write
  | .process processId action => do
      let q ← s.processes.find processId
      let e ← q.act config unicode s.db s.now action
      e.write
  | .reconcileNext reconcilerId readAt => do
      let r ← s.reconcilers.find reconcilerId
      let job ← r.remaining.head?
      some (Reconciler.write job readAt)
  | _ => none

/-- What a step makes of the row of a job. -/
def Label.applied (config : OcrConfig) (unicode : Unicode) (s : State) (a : Label) (job : OcrJob) :
    OcrJob :=
  match a.write config unicode s with
  | some w =>
      if w.jobId = job.id then (w.update config.staleJobMs s.now s.db).apply job else job
  | none => job

/-- The database after a step that sends a write, and after one that sends none. -/
theorem database_of_step {s s' : State} {a : Label} (h : step config unicode s a = some s') :
  (∃ w, a.write config unicode s = some w
    ∧ s'.db = (w.perform config.staleJobMs s.now s.db).1)
  ∨ a.write config unicode s = none ∧ s'.db.ocrPages = s.db.ocrPages
    ∧ (s'.db.documents = s.db.documents ∨ ∃ document, a = .writeDocument document)
    ∧ (s'.db.ocrJobs = s.db.ocrJobs
      ∨ ∃ id userId documentId language createdAt, s.db.ocrJobs.create
        (OcrService.createdJob config id userId documentId language createdAt)
          = some s'.db.ocrJobs)
  := by
  cases moves_of_step h with
  | ticks | delivers | reconciles | aborts => exact .inr ⟨rfl, rfl, .inl rfl, .inl rfl⟩
  | creates hcreate => exact .inr ⟨rfl, rfl, .inl rfl, .inr ⟨_, _, _, _, _, hcreate⟩⟩
  | @writes document => exact .inr ⟨rfl, rfl, .inr ⟨document, rfl⟩, .inl rfl⟩
  | @acts q action e hq hact =>
      obtain ⟨write, next⟩ := e
      have hwrite : Label.write config unicode s (.process q.id action) = write := by
        simp [Label.write, hq, hact]
      rw [hwrite]
      cases write with
      | none => exact .inr ⟨rfl, rfl, .inl rfl, .inl rfl⟩
      | some w => exact .inl ⟨w, rfl, rfl⟩
  | @treats r job remaining readAt hr hremaining =>
      refine .inl ⟨Reconciler.write job readAt, ?_, rfl⟩
      simp [Label.write, hr, hremaining]

/-- A job keeps its row, changed by the write of a step about it. -/
theorem find_of_step {s s' : State} {a : Label} (h : step config unicode s a = some s')
    {jobId : ℕ} {job : OcrJob} (hjob : s.db.ocrJobs.find jobId = some job) :
  s'.db.ocrJobs.find jobId = some (a.applied config unicode s job)
  := by
  unfold Label.applied
  obtain rfl := Table.key_of_find hjob
  rcases database_of_step h with ⟨w, hw, hdb⟩ | ⟨hw, -, -, hjobs | ⟨id, _, _, _, _, hcreate⟩⟩
  · simp only [hw, hdb, Write.find_perform]
    by_cases hid : w.jobId = job.id
    · rw [if_pos hid.symm, if_pos hid, hid, hjob, Option.map_some]
    · rw [if_neg (Ne.symm hid), if_neg hid, hjob]
  · simp only [hw, hjobs, hjob]
  · rw [Table.find_create_of_find hcreate hjob, hw]

/-- Every row was there before the step, or is a new one. -/
theorem row_of_step {s s' : State} {a : Label} (h : step config unicode s a = some s')
    {job' : OcrJob} (hjob' : job' ∈ s'.db.ocrJobs.rows) :
  (∃ job ∈ s.db.ocrJobs.rows, job' = a.applied config unicode s job)
  ∨ ∃ id userId documentId language createdAt,
    job' = OcrService.createdJob config id userId documentId language createdAt
  := by
  cases hfind : s.db.ocrJobs.find job'.id with
  | some job =>
      have hafter := find_of_step h hfind
      rw [Table.mem_rows_iff.mp hjob'] at hafter
      exact .inl ⟨job, Table.mem_of_find hfind, Option.some.inj hafter⟩
  | none =>
      have hfind' := Table.mem_rows_iff.mp hjob'
      rcases database_of_step h with
        ⟨w, -, hdb⟩ | ⟨-, -, -, hjobs | ⟨id, userId, documentId, language, createdAt, hcreate⟩⟩
      · rw [hdb, Write.find_perform] at hfind'
        split at hfind'
        · rename_i hid
          rw [← hid, hfind] at hfind'
          cases hfind'
        · rw [hfind] at hfind'
          cases hfind'
      · rw [hjobs, hfind] at hfind'
        cases hfind'
      · rw [Table.find_create hcreate] at hfind'
        split at hfind'
        · exact .inr ⟨id, userId, documentId, language, createdAt, (Option.some.inj hfind').symm⟩
        · rw [hfind] at hfind'
          cases hfind'

/-- What the database replies to a step of a process. -/
def Effect.reply (config : OcrConfig) (s : State) (e : Effect) : Bool :=
  match e.write with
  | none => false
  | some w => (w.perform config.staleJobMs s.now s.db).2

theorem processes_apply (s : State) (q : Process) (e : Effect) :
  (s.apply config q e).processes
    = s.processes.put { q with toProgress := e.next (e.reply config s) }
  := by
  obtain ⟨write, next⟩ := e
  cases write <;> rfl

/-- What a step does to the processes: nothing, a delivery, or a step of one of them. -/
theorem processes_of_step {s s' : State} {a : Label} (h : step config unicode s a = some s') :
  s'.processes = s.processes
  ∨ (∃ p : Process, s.processes.create p = some s'.processes ∧ p.phase = .delivered
    ∧ p.timer = false ∧ p.attempt = 0 ∧ p.lastBeat = 0)
  ∨ ∃ q ∈ s.processes.rows, ∃ action e, a = .process q.id action
    ∧ q.act config unicode s.db s.now action = some e ∧ s' = s.apply config q e
  := by
  cases moves_of_step h with
  | delivers hcreate => exact .inr (.inl ⟨_, hcreate, rfl, rfl, rfl, rfl⟩)
  | acts hq hact => exact .inr (.inr ⟨_, Table.mem_of_find hq, _, _, rfl, hact, rfl⟩)
  | _ => exact .inl rfl

/-- A process after a step is the one that took it, or is as it was, or has just been delivered. -/
inductive ProcessStep (config : OcrConfig) (unicode : Unicode) (s s' : State) (a : Label) :
    Process → Prop where
  | acts {q : Process} {action : Action} {e : Effect} (hq : q ∈ s.processes.rows)
      (ha : a = .process q.id action) (hact : q.act config unicode s.db s.now action = some e)
      (hs' : s' = s.apply config q e) :
      ProcessStep config unicode s s' a { q with toProgress := e.next (e.reply config s) }
  | stays {q : Process} (hq : q ∈ s.processes.rows) : ProcessStep config unicode s s' a q
  | delivered (id jobId : ℕ) : ProcessStep config unicode s s' a
      { id, jobId, phase := .delivered, timer := false, attempt := 0, lastBeat := 0 }

theorem processStep_of_step {s s' : State} {a : Label} (h : step config unicode s a = some s')
    {r : Process} (hr : r ∈ s'.processes.rows) :
  ProcessStep config unicode s s' a r
  := by
  rcases processes_of_step h with hsame | ⟨p, hcreate, hphase, htimer, hattempt, hbeat⟩
    | ⟨q, hq, action, e, ha, hact, hs'⟩
  · rw [hsame] at hr
    exact .stays hr
  · rw [Table.rows_of_create hcreate, List.mem_append, List.mem_singleton] at hr
    rcases hr with hr | rfl
    · exact .stays hr
    · obtain ⟨⟨phase, timer, attempt, lastBeat⟩, id, jobId⟩ := r
      obtain rfl : phase = .delivered := hphase
      obtain rfl : timer = false := htimer
      obtain rfl : attempt = 0 := hattempt
      obtain rfl : lastBeat = 0 := hbeat
      exact .delivered id jobId
  · rw [hs', processes_apply] at hr
    rcases Table.mem_rows_put_iff.mp hr with rfl | ⟨hr, -⟩
    · exact .acts hq ha hact hs'
    · exact .stays hr

/-- A process after a step is what it was, or what its own step made of it. -/
theorem find_process_of_step {s s' : State} {a : Label} (h : step config unicode s a = some s')
    {id : ℕ} {q : Process} (hq : s.processes.find id = some q) :
  s'.processes.find id = some q
  ∨ ∃ action e, a = .process id action ∧ q.act config unicode s.db s.now action = some e
    ∧ s'.processes.find id = some { q with toProgress := e.next (e.reply config s) }
  := by
  rcases processes_of_step h with hsame | ⟨p, hcreate, -⟩ | ⟨r, hr, action, e, ha, hact, rfl⟩
  · left
    rw [hsame, hq]
  · exact .inl (Table.find_create_of_find hcreate hq)
  · obtain rfl := Table.key_of_find hq
    rw [processes_apply, Table.find_put]
    by_cases hid : r.id = q.id
    · have hrq : r = q := by
        have hfind := Table.mem_rows_iff.mp hr
        rw [hid, hq] at hfind
        exact (Option.some.inj hfind).symm
      subst hrq
      exact .inr ⟨action, e, ha, hact, if_pos rfl⟩
    · left
      rw [if_neg (Ne.symm hid), hq]

/-- What a reconciler has still to look at is what it had before the step, or part of it, or the
stale jobs it has just read. -/
theorem remaining_of_step {s s' : State} {a : Label} (h : step config unicode s a = some s')
    {r' : Reconciler} (hr' : r' ∈ s'.reconcilers.rows) :
  (∃ r ∈ s.reconcilers.rows, r'.remaining ⊆ r.remaining)
  ∨ ∃ readAt, r'.remaining = OcrJobService.findStaleProcessing s.db config.staleJobMs readAt
  := by
  have hkept {r : Reconciler} (hr : r ∈ s.reconcilers.rows) :
      (∃ r' ∈ s.reconcilers.rows, r.remaining ⊆ r'.remaining) ∨ ∃ readAt,
        r.remaining = OcrJobService.findStaleProcessing s.db config.staleJobMs readAt :=
    .inl ⟨r, hr, List.Subset.refl _⟩
  cases moves_of_step h with
  | ticks | creates | writes | delivers => exact hkept hr'
  | @acts _ _ e =>
      obtain ⟨write, next⟩ := e
      cases write with
      | none => exact hkept hr'
      | some w => exact hkept hr'
  | @reconciles _ readAt =>
      rcases Table.mem_rows_put_iff.mp hr' with rfl | ⟨hr', -⟩
      · exact .inr ⟨readAt, rfl⟩
      · exact hkept hr'
  | treats hr hremaining =>
      rcases Table.mem_rows_put_iff.mp hr' with rfl | ⟨hr', -⟩
      · refine .inl ⟨_, Table.mem_of_find hr, ?_⟩
        rw [hremaining]
        apply List.subset_cons_self
      · exact hkept hr'
  | aborts hr =>
      rcases Table.mem_rows_put_iff.mp hr' with rfl | ⟨hr', -⟩
      · exact .inl ⟨_, Table.mem_of_find hr, List.nil_subset _⟩
      · exact hkept hr'

/-- A write is sent by a process, or by a reconciler for a job of its pass. -/
theorem origin_of_write {s : State} {a : Label} {w : Write}
    (h : a.write config unicode s = some w) :
  (∃ q ∈ s.processes.rows, ∃ action next, a = .process q.id action
    ∧ q.act config unicode s.db s.now action = some ⟨some w, next⟩)
  ∨ ∃ r ∈ s.reconcilers.rows, ∃ job ∈ r.remaining, ∃ readAt, a = .reconcileNext r.id readAt
    ∧ w = Reconciler.write job readAt
  := by
  unfold Label.write at h
  split at h
  · obtain ⟨q, hq, h⟩ := Option.bind_eq_some_iff.mp h
    obtain ⟨⟨write, next⟩, hact, rfl⟩ := Option.bind_eq_some_iff.mp h
    obtain rfl := Table.key_of_find hq
    exact .inl ⟨q, Table.mem_of_find hq, _, next, rfl, hact⟩
  · obtain ⟨r, hr, h⟩ := Option.bind_eq_some_iff.mp h
    obtain ⟨job, hjob, h⟩ := Option.bind_eq_some_iff.mp h
    obtain rfl := Option.some.inj h
    obtain rfl := Table.key_of_find hr
    exact .inr ⟨r, Table.mem_of_find hr, job, List.mem_of_head? hjob, _, rfl, rfl⟩
  · cases h

/-- A step is one of a process, or it leaves the stored pages alone and at most delivers a job. -/
theorem process_or_quiet_of_step {s s' : State} {a : Label}
    (h : step config unicode s a = some s') :
  (∃ q ∈ s.processes.rows, ∃ action e, a = .process q.id action
    ∧ q.act config unicode s.db s.now action = some e ∧ s' = s.apply config q e)
  ∨ s'.db.ocrPages = s.db.ocrPages
    ∧ ∀ r ∈ s'.processes.rows, r ∈ s.processes.rows ∨ r.phase = .delivered
  := by
  cases moves_of_step h with
  | acts hq hact => exact .inl ⟨_, Table.mem_of_find hq, _, _, rfl, hact, rfl⟩
  | delivers hcreate =>
      refine .inr ⟨rfl, ?_⟩
      intro r hr
      rw [Table.rows_of_create hcreate, List.mem_append, List.mem_singleton] at hr
      rcases hr with hr | rfl
      · exact .inl hr
      · exact .inr rfl
  | treats =>
      refine .inr ⟨?_, fun r hr => .inl hr⟩
      unfold Reconciler.write
      split
      · rfl
      · rfl
  | _ => exact .inr ⟨rfl, fun r hr => .inl hr⟩

/-- Only the storage of a page changes the stored pages. -/
theorem ocrPages_apply {s : State} {q : Process} {a : Action} {e : Effect}
    (h : q.act config unicode s.db s.now a = some e) :
  (∃ job page rest, a = .advance ∧ q.phase = .yielded job page rest
    ∧ e = ⟨some (.persistPage q.jobId page), q.renewTo s.now (.extracting job rest)⟩
    ∧ (s.apply config q e).db.ocrPages = s.db.ocrPages.put (OcrJobService.pageRow q.jobId page))
  ∨ (∀ page, e.write ≠ some (.persistPage q.jobId page))
    ∧ (s.apply config q e).db.ocrPages = s.db.ocrPages
  := by
  have hkeep : (∀ jobId page, e.write ≠ some (.persistPage jobId page)) →
      (∀ page, e.write ≠ some (.persistPage q.jobId page))
        ∧ (s.apply config q e).db.ocrPages = s.db.ocrPages := by
    intro hwrite
    refine ⟨hwrite q.jobId, ?_⟩
    obtain ⟨write, next⟩ := e
    cases write with
    | none => rfl
    | some w =>
        simp only [State.apply, Write.perform_ocrPages]
        split
        · exact absurd rfl (hwrite _ _)
        · rfl
  have hmoves := Process.moves_of_act h
  clear h
  cases hmoves with
  | @persists job page rest hphase => exact .inl ⟨job, page, rest, rfl, hphase, rfl, rfl⟩
  | handles hphase hw =>
      right
      apply hkeep
      rintro jobId page hwrite
      obtain rfl := Option.some.inj hwrite
      unfold Process.handleFailure at hw
      simp only at hw
      split at hw
      · cases hw
      · cases hw
  | _ =>
      right
      apply hkeep
      rintro jobId page ⟨⟩

/-- A stored page was stored before the step, or is the one a process stores. -/
theorem page_of_step {s s' : State} {a : Label} (h : step config unicode s a = some s')
    {page : OcrPage} (hpage : page ∈ s'.db.ocrPages.rows) :
  page ∈ s.db.ocrPages.rows
  ∨ ∃ q ∈ s.processes.rows, ∃ job extracted rest, a = .process q.id .advance
    ∧ q.phase = .yielded job extracted rest ∧ page = OcrJobService.pageRow q.jobId extracted
  := by
  rcases process_or_quiet_of_step h with ⟨q, hq, action, e, rfl, hact, rfl⟩ | ⟨hpages, -⟩
  · rcases ocrPages_apply hact with ⟨job, extracted, rest, rfl, hphase, -, hput⟩ | ⟨-, hsame⟩
    · rw [hput] at hpage
      rcases Table.mem_rows_put_iff.mp hpage with rfl | ⟨hpage, -⟩
      · exact .inr ⟨q, hq, job, extracted, rest, rfl, hphase, rfl⟩
      · exact .inl hpage
    · rw [hsame] at hpage
      exact .inl hpage
  · rw [hpages] at hpage
    exact .inl hpage

/-- The row of a terminal job stays as it is. -/
theorem find_of_terminal {s s' : State} {a : Label} (h : step config unicode s a = some s')
    {jobId : ℕ} {job : OcrJob} (hjob : s.db.ocrJobs.find jobId = some job)
    (hterminal : job.status ∈ TERMINAL_OCR_STATUSES) :
  s'.db.ocrJobs.find jobId = some job
  := by
  generalize s'.db = db', databaseStep_of_step h = hdb
  cases hdb with
  | same hjobs hpages howner => rw [hjobs, hjob]
  | create ha hjobs => exact Table.find_create_of_find hjobs hjob
  | write w hpersist => exact w.find_of_terminal hjob hterminal

end OcrWorker

end DocuAI
