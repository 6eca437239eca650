import Mathlib.Data.List.Dedup
import Mathlib.Data.List.Sort
import DocuAI.Ocr.Extraction

/-!
# Persistence of jobs and pages

The statements and transactions `OcrJobService` sends to the database, each one atomic step.  Every
change of a job is an update of its row with the status in the `WHERE` clause.  `Write` names those
a worker or the reconciler can send, and `Write.update` is what each does to the row of its job.
-/

namespace DocuAI

def ACTIVE_OCR_STATUSES : List OcrJobStatus := [.QUEUED, .PROCESSING]

def TERMINAL_OCR_STATUSES : List OcrJobStatus := [.COMPLETED, .PARTIAL, .FAILED, .CANCELLED]

/-- A status is active or terminal, and not both. -/
theorem mem_terminal_iff (status : OcrJobStatus) :
  status ∈ TERMINAL_OCR_STATUSES ↔ status ∉ ACTIVE_OCR_STATUSES
  := by
  cases status <;> decide

namespace Database

/-- The pages of a job, in the order of their creation. -/
def pagesOf (db : Database) (jobId : ℕ) : List OcrPage :=
  db.ocrPages.rows.filter fun page => page.ocrJobId = jobId

/-- The owner of a document. -/
def ownerOf (db : Database) (documentId : ℕ) : Option ℕ :=
  (db.documents.find documentId).map Document.userId

/-- The database with a page stored, over the row with its number if there is one. -/
def storePage (db : Database) (page : OcrPage) : Database :=
  { db with ocrPages := db.ocrPages.put page }

/-- The conditional update of the row of one job, and whether it changed the row. -/
def updateJob (db : Database) (jobId : ℕ) (u : Update OcrJob.id) : Database × Bool :=
  let updated := db.ocrJobs.updateMany (u.on jobId)
  ({ db with ocrJobs := updated.1 }, updated.2 = 1)

/-- Storing a page leaves the pages of the other jobs alone. -/
theorem pagesOf_storePage_of_ne {db : Database} {page : OcrPage} {jobId : ℕ}
    (h : page.ocrJobId ≠ jobId) :
  (db.storePage page).pagesOf jobId = db.pagesOf jobId
  := by
  apply Table.filter_put
  · intro x hx
    rw [(Prod.mk.inj hx).1]
  · simpa using h

/-- A page with a new number comes after the pages stored before. -/
theorem pagesOf_storePage_of_find_none {db : Database} {page : OcrPage}
    (h : db.ocrPages.find page.key = none) :
  (db.storePage page).pagesOf page.ocrJobId = db.pagesOf page.ocrJobId ++ [page]
  := by
  simp [pagesOf, storePage, Table.rows_put_of_find_none h, List.filter_append]

/-- The pages of a job after storing one: the new page, and the others with another number. -/
theorem perm_pagesOf_storePage (db : Database) (page : OcrPage) :
  List.Perm ((db.storePage page).pagesOf page.ocrJobId)
    (page :: (db.pagesOf page.ocrJobId).filter fun other => other.pageNumber ≠ page.pageNumber)
  := by
  have hput := (Table.perm_put db.ocrPages page).filter fun other =>
    decide (other.ocrJobId = page.ocrJobId)
  rw [List.filter_cons, if_pos (decide_eq_true rfl), List.filter_filter] at hput
  apply hput.trans
  apply List.Perm.of_eq
  congr 1
  rw [pagesOf, List.filter_filter]
  apply List.filter_congr
  intro other _
  by_cases hjob : other.ocrJobId = page.ocrJobId
  · simp [hjob, OcrPage.key]
  · simp [hjob]

/-- A page that is stored already changes nothing. -/
theorem pagesOf_storePage_of_find {db : Database} {page : OcrPage} {jobId : ℕ}
    (h : db.ocrPages.find page.key = some page) :
  (db.storePage page).pagesOf jobId = db.pagesOf jobId
  := by
  simp only [pagesOf, storePage, Table.put_of_find h]

/-- The page under a number is among the pages of its job. -/
theorem find_page_iff {db : Database} {jobId n : ℕ} {page : OcrPage} :
  db.ocrPages.find (jobId, n) = some page ↔ page ∈ db.pagesOf jobId ∧ page.pageNumber = n
  := by
  constructor
  · intro h
    have hkey := Table.key_of_find h
    obtain ⟨rfl, rfl⟩ := Prod.mk.inj hkey
    simp [pagesOf, Table.mem_of_find h]
  · rintro ⟨hmem, rfl⟩
    simp only [pagesOf, List.mem_filter, decide_eq_true_eq] at hmem
    obtain ⟨hmem, rfl⟩ := hmem
    exact Table.mem_rows_iff.mp hmem

/-- An update of a job changes its row exactly when the row exists and is admitted. -/
theorem updateJob_reply {db : Database} {jobId : ℕ} {u : Update OcrJob.id} :
  (db.updateJob jobId u).2 = true ↔ ∃ job, db.ocrJobs.find jobId = some job ∧ u.guard job = true
  := by
  rw [← Table.count_updateMany_on]
  simp [updateJob]

end Database

/-- The error messages are stored with at most 500 characters. -/
def storedMessage (errorMessage : JsString) : JsString :=
  errorMessage.truncate 500

/-! ### Aggregation of the pages -/

/-- The weights by which `localeCompare` orders error codes: an underscore precedes the letters. -/
def OcrErrorCode.collation (code : OcrErrorCode) : List ℕ :=
  code.name.toList.map fun c => if c = '_' then 0 else c.toNat

def localeCompare (a b : OcrErrorCode) : Ordering :=
  compare a.collation b.collation

/-- How often each value occurs, in the order of their first occurrences. -/
def countValues (values : List OcrErrorCode) : List (OcrErrorCode × ℕ) :=
  values.foldl
    (fun counts value =>
      if value ∈ counts.map Prod.fst then
        counts.map fun entry => if entry.1 = value then (value, entry.2 + 1) else entry
      else counts ++ [(value, 1)])
    []

/-- Whether `sort` places the first entry before the second: it is counted more often, or as often
and precedes it by name. -/
def sortsBefore (a b : OcrErrorCode × ℕ) : Bool :=
  b.2 < a.2 || (a.2 = b.2 && localeCompare a.1 b.1 ≠ .gt)

/-- The most common value. -/
def mostCommon (values : List OcrErrorCode) : Option OcrErrorCode :=
  ((countValues values).insertionSort fun a b => sortsBefore a b).head?.map Prod.fst

/-- The extraction method of a job with the given pages. -/
def extractionMethodOf (pages : List OcrPage) : Option OcrExtractionMethod :=
  match (pages.filterMap OcrPage.method).dedup with
  | [] => none
  | [method] => some method.extractionMethod
  | _ => some .MIXED

/-- The pages that could not be processed. -/
def failedPages (pages : List OcrPage) : List OcrPage :=
  pages.filter fun page => page.status = .FAILED

/-- The terminal status of a job with the given pages. -/
def finalStatus (pages : List OcrPage) : OcrJobStatus :=
  if pages.length = 0 ∨ (failedPages pages).length = pages.length then .FAILED
  else if 0 < (failedPages pages).length then .PARTIAL
  else .COMPLETED

/-- The most common error of the failed pages. -/
def dominantError (pages : List OcrPage) : Option OcrErrorCode :=
  if 0 < (failedPages pages).length then
    mostCommon ((failedPages pages).map fun page => page.errorCode.getD .OCR_PROCESSING_FAILED)
  else none

/-- The message of a job with the given pages. -/
def finalMessage (pages : List OcrPage) : Option JsString :=
  match finalStatus pages with
  | .COMPLETED => none
  | .PARTIAL =>
      some (jsNat (failedPages pages).length ++ js " of " ++ jsNat pages.length
        ++ js " pages could not be processed")
  | _ => some (js "No page could be processed")

/-! ### Updates of a job -/

/-- No heartbeat of the job is younger than `staleMs`, measured at the time `readAt`. -/
def OcrJob.isStale (staleMs readAt : ℕ) (job : OcrJob) : Bool :=
  match job.heartbeatAt with
  | none => true
  | some heartbeatAt => heartbeatAt + staleMs < readAt

namespace OcrJobService

/-- `claim` takes a QUEUED job, or a PROCESSING job whose heartbeat is stale. -/
def claimUpdate (staleMs readAt now : ℕ) : Update OcrJob.id where
  guard job := job.status = .QUEUED || (job.status = .PROCESSING && job.isStale staleMs readAt)
  data job :=
    { job with
      status := .PROCESSING
      startedAt := some (job.startedAt.getD now)
      heartbeatAt := some now
      attemptCount := job.attemptCount + 1
      errorCode := none
      errorMessage := none }

def heartbeatUpdate (now : ℕ) : Update OcrJob.id where
  guard job := job.status = .PROCESSING
  data job := { job with heartbeatAt := some now }

def setTotalPagesUpdate (totalPages now : ℕ) : Update OcrJob.id where
  guard job := job.status = .PROCESSING
  data job := { job with totalPages := some totalPages, heartbeatAt := some now }

/-- The counters `persistPage` derives from the stored pages. -/
def countPagesUpdate (pages : List OcrPage) (now : ℕ) : Update OcrJob.id where
  guard job := job.status = .PROCESSING
  data job :=
    { job with
      processedPages := min (job.totalPages.getD pages.length) pages.length
      failedPages := (failedPages pages).length
      heartbeatAt := some now }

/-- `finalize` ends a PROCESSING job with what its pages add up to. -/
def finalizeUpdate (pages : List OcrPage) (now : ℕ) : Update OcrJob.id where
  guard job := job.status = .PROCESSING
  data job :=
    { job with
      status := finalStatus pages
      extractionMethod := extractionMethodOf pages
      errorCode := if finalStatus pages = .COMPLETED then none else dominantError pages
      errorMessage := finalMessage pages
      completedAt := some now
      heartbeatAt := some now
      processedPages := pages.length
      failedPages := (failedPages pages).length }

/-- `fail` and `cancel` end an active job. -/
def endUpdate (status : OcrJobStatus) (errorCode : OcrErrorCode) (errorMessage : JsString)
    (now : ℕ) : Update OcrJob.id where
  guard job := job.status ∈ ACTIVE_OCR_STATUSES
  data job :=
    { job with
      status := status
      errorCode := some errorCode
      errorMessage := some (storedMessage errorMessage)
      completedAt := some now
      heartbeatAt := some now }

def requeueUpdate (errorCode : OcrErrorCode) (errorMessage : JsString) (now : ℕ) :
    Update OcrJob.id where
  guard job := job.status = .PROCESSING
  data job :=
    { job with
      status := .QUEUED
      errorCode := some errorCode
      errorMessage := some (storedMessage errorMessage)
      heartbeatAt := some now }

/-- `recover` resets a PROCESSING job whose heartbeat is stale. -/
def recoverUpdate (staleMs readAt now : ℕ) : Update OcrJob.id where
  guard job := job.status = .PROCESSING && job.isStale staleMs readAt
  data job := { job with status := .QUEUED, heartbeatAt := some now }

/-! ### The statements of the worker -/

/-- The number of pages is not the identity of a document. -/
theorem id_of_measured (totalPages now : ℕ) (document : Document) :
  Document.id { document with pageCount := some totalPages, updatedAt := now } = document.id
  := rfl

variable (db : Database) (jobId now : ℕ)

def findById : Option OcrJob :=
  db.ocrJobs.find jobId

def claim (staleMs readAt : ℕ) : Database × Bool :=
  db.updateJob jobId (claimUpdate staleMs readAt now)

def heartbeat : Database × Bool :=
  db.updateJob jobId (heartbeatUpdate now)

/-- Records the number of pages with the job and with the document. -/
def setTotalPages (documentId totalPages : ℕ) : Database × Bool :=
  let updated := db.updateJob jobId (setTotalPagesUpdate totalPages now)
  let ofDocument : Update Document.id :=
    { guard := fun document => document.deletedAt.isNone
      data := fun document => { document with pageCount := some totalPages, updatedAt := now }
      key_data := id_of_measured totalPages now }
  ({ updated.1 with documents := (db.documents.updateMany (ofDocument.on documentId)).1 }, updated.2)

/-- The last page stored for a job, and the characters stored for it. -/
def persistedProgress : ℕ × ℕ :=
  let pages := db.pagesOf jobId
  ((pages.map OcrPage.pageNumber).foldr max 0, (pages.map OcrPage.charCount).sum)

/-- The row of a page. -/
def pageRow (page : ExtractedPage) : OcrPage where
  ocrJobId := jobId
  pageNumber := page.pageNumber
  status := page.status
  method := page.method
  text := page.text
  confidence := page.confidence
  charCount := page.charCount
  truncated := page.truncated
  errorCode := page.errorCode

/-- Stores one page, over the row with its number if there is one, and refreshes the counters of
the job. -/
def persistPage (page : ExtractedPage) : Database × Bool :=
  let stored := db.storePage (pageRow jobId page)
  stored.updateJob jobId (countPagesUpdate (stored.pagesOf jobId) now)

/-- Derives the terminal status of a job from its stored pages, and returns the job it ended. -/
def finalize : Database × Option OcrJob :=
  let updated := db.updateJob jobId (finalizeUpdate (db.pagesOf jobId) now)
  if updated.2 then (updated.1, findById updated.1 jobId) else (updated.1, none)

/-- `finalize` returns a job exactly when it ended one. -/
theorem finalize_isSome :
  (finalize db jobId now).2.isSome
    = (db.updateJob jobId (finalizeUpdate (db.pagesOf jobId) now)).2
  := by
  unfold finalize
  simp only
  split
  · rename_i h
    obtain ⟨job, hjob, -⟩ := Database.updateJob_reply.mp h
    rw [h]
    simp [findById, Database.updateJob, Table.find_updateMany_on, hjob]
  · rename_i h
    simp only [Bool.not_eq_true] at h
    rw [h]
    rfl

def fail (errorCode : OcrErrorCode) (errorMessage : JsString) : Database × Bool :=
  db.updateJob jobId (endUpdate .FAILED errorCode errorMessage now)

def requeue (errorCode : OcrErrorCode) (errorMessage : JsString) : Database × Bool :=
  db.updateJob jobId (requeueUpdate errorCode errorMessage now)

def cancel (errorCode : OcrErrorCode) (errorMessage : JsString) : Database × Bool :=
  db.updateJob jobId (endUpdate .CANCELLED errorCode errorMessage now)

/-- The PROCESSING jobs whose heartbeat is stale, oldest first and at most 500 of them. -/
def findStaleProcessing (staleMs readAt : ℕ) : List OcrJob :=
  let stale := db.ocrJobs.rows.filter fun job => job.status = .PROCESSING && job.isStale staleMs readAt
  (stale.insertionSort fun a b => a.createdAt ≤ b.createdAt).take 500

def recover (staleMs readAt : ℕ) : Database × Bool :=
  db.updateJob jobId (recoverUpdate staleMs readAt now)

end OcrJobService

/-! ### Writes -/

/-- The statements and transactions that change the database. -/
inductive Write where
  | claim (jobId readAt : ℕ)
  | heartbeat (jobId : ℕ)
  | setTotalPages (jobId documentId totalPages : ℕ)
  | persistPage (jobId : ℕ) (page : ExtractedPage)
  | finalize (jobId : ℕ)
  | fail (jobId : ℕ) (errorCode : OcrErrorCode) (errorMessage : JsString)
  | requeue (jobId : ℕ) (errorCode : OcrErrorCode) (errorMessage : JsString)
  | cancel (jobId : ℕ) (errorCode : OcrErrorCode) (errorMessage : JsString)
  | recover (jobId readAt : ℕ)
  deriving DecidableEq

namespace Write

/-- The job a write is about. -/
def jobId : Write → ℕ
  | .claim jobId _ => jobId
  | .heartbeat jobId => jobId
  | .setTotalPages jobId _ _ => jobId
  | .persistPage jobId _ => jobId
  | .finalize jobId => jobId
  | .fail jobId _ _ => jobId
  | .requeue jobId _ _ => jobId
  | .cancel jobId _ _ => jobId
  | .recover jobId _ => jobId

/-- Sends a write: the database after it, and whether the row of the job was changed. -/
def perform (staleMs now : ℕ) (db : Database) : Write → Database × Bool
  | .claim jobId readAt => OcrJobService.claim db jobId now staleMs readAt
  | .heartbeat jobId => OcrJobService.heartbeat db jobId now
  | .setTotalPages jobId documentId totalPages =>
      OcrJobService.setTotalPages db jobId now documentId totalPages
  | .persistPage jobId page => OcrJobService.persistPage db jobId now page
  | .finalize jobId => 
      let ended := OcrJobService.finalize db jobId now
      (ended.1, ended.2.isSome)
  | .fail jobId errorCode errorMessage =>
      OcrJobService.fail db jobId now errorCode errorMessage
  | .requeue jobId errorCode errorMessage =>
      OcrJobService.requeue db jobId now errorCode errorMessage
  | .cancel jobId errorCode errorMessage =>
      OcrJobService.cancel db jobId now errorCode errorMessage
  | .recover jobId readAt => OcrJobService.recover db jobId now staleMs readAt

open OcrJobService in
/-- What a write does to the row of its job. -/
def update (staleMs now : ℕ) (db : Database) : Write → Update OcrJob.id
  | .claim _ readAt => claimUpdate staleMs readAt now
  | .heartbeat _ => heartbeatUpdate now
  | .setTotalPages _ _ totalPages => setTotalPagesUpdate totalPages now
  | .persistPage jobId page =>
      countPagesUpdate ((db.storePage (pageRow jobId page)).pagesOf jobId) now
  | .finalize jobId => finalizeUpdate (db.pagesOf jobId) now
  | .fail _ errorCode errorMessage => endUpdate .FAILED errorCode errorMessage now
  | .requeue _ errorCode errorMessage => requeueUpdate errorCode errorMessage now
  | .cancel _ errorCode errorMessage => endUpdate .CANCELLED errorCode errorMessage now
  | .recover _ readAt => recoverUpdate staleMs readAt now

variable {staleMs now : ℕ} {db : Database}

theorem perform_ocrJobs (w : Write) :
  (w.perform staleMs now db).1.ocrJobs
    = (db.ocrJobs.updateMany ((w.update staleMs now db).on w.jobId)).1
  := by
  cases w with
  | finalize jobId =>
      simp only [perform, OcrJobService.finalize]
      split
      · rfl
      · rfl
  | _ => rfl

/-- A write changes the row of its job, if the guard admits it, and no other. -/
theorem find_perform (w : Write) (jobId : ℕ) :
  (w.perform staleMs now db).1.ocrJobs.find jobId
    = if jobId = w.jobId then (db.ocrJobs.find w.jobId).map (w.update staleMs now db).apply
      else db.ocrJobs.find jobId
  := by
  rw [perform_ocrJobs, Table.find_updateMany_on]

/-- A write reports success exactly when its guard admits the row of its job. -/
theorem perform_reply (w : Write) :
  (w.perform staleMs now db).2 = true
    ↔ ∃ job, db.ocrJobs.find w.jobId = some job ∧ (w.update staleMs now db).guard job = true
  := by
  cases w with
  | finalize jobId =>
      simp only [perform]
      rw [OcrJobService.finalize_isSome]
      apply Database.updateJob_reply
  | _ => apply Database.updateJob_reply

/-- The row of its job after a write that succeeds. -/
theorem find_of_reply {w : Write} (h : (w.perform staleMs now db).2 = true) :
  ∃ job, db.ocrJobs.find w.jobId = some job ∧ (w.update staleMs now db).guard job = true
    ∧ (w.perform staleMs now db).1.ocrJobs.find w.jobId
      = some ((w.update staleMs now db).data job)
  := by
  obtain ⟨job, hjob, hguard⟩ := (perform_reply w).mp h
  use job, hjob, hguard
  rw [find_perform, if_pos rfl, hjob, Option.map_some, Update.apply_of_guard _ hguard]

/-- The row of its job after a write that is refused. -/
theorem find_of_not_reply {w : Write} (h : (w.perform staleMs now db).2 = false) :
  (∀ job, db.ocrJobs.find w.jobId = some job → (w.update staleMs now db).guard job = false)
    ∧ (w.perform staleMs now db).1.ocrJobs.find w.jobId = db.ocrJobs.find w.jobId
  := by
  have hguard : ∀ job, db.ocrJobs.find w.jobId = some job →
      (w.update staleMs now db).guard job = false := by
    intro job hjob
    by_contra hne
    rw [(perform_reply w).mpr ⟨job, hjob, Bool.not_eq_false _ ▸ hne⟩] at h
    cases h
  use hguard
  rw [find_perform, if_pos rfl]
  cases hjob : db.ocrJobs.find w.jobId with
  | none => rfl
  | some job => rw [Option.map_some, Update.apply_of_not_guard _ (hguard job hjob)]

/-- Only `persistPage` changes the pages. -/
theorem perform_ocrPages (w : Write) :
  (w.perform staleMs now db).1.ocrPages
    = match w with
      | .persistPage jobId page => (db.storePage (OcrJobService.pageRow jobId page)).ocrPages
      | _ => db.ocrPages
  := by
  cases w with
  | finalize jobId =>
      simp only [perform, OcrJobService.finalize]
      split
      · rfl
      · rfl
  | _ => rfl

/-- A write other than storing a page of the job leaves its pages alone. -/
theorem pagesOf_perform {w : Write} {jobId : ℕ} (h : ∀ page, w ≠ .persistPage jobId page) :
  (w.perform staleMs now db).1.pagesOf jobId = db.pagesOf jobId
  := by
  unfold Database.pagesOf
  rw [perform_ocrPages]
  cases w with
  | persistPage jobId' page =>
      have hne : jobId' ≠ jobId := by
        rintro rfl
        exact h page rfl
      apply Database.pagesOf_storePage_of_ne hne
  | _ => rfl

/-- A write changes a job only while it is active. -/
theorem active_of_guard (w : Write) {job : OcrJob}
    (h : (w.update staleMs now db).guard job = true) :
  job.status ∈ ACTIVE_OCR_STATUSES
  := by
  have hprocessing : job.status = .PROCESSING → job.status ∈ ACTIVE_OCR_STATUSES := by
    intro hstatus
    rw [hstatus]
    decide
  cases w with
  | claim jobId readAt =>
      simp only [update, OcrJobService.claimUpdate, Bool.or_eq_true, Bool.and_eq_true,
        decide_eq_true_eq] at h
      rcases h with hstatus | ⟨hstatus, -⟩
      · rw [hstatus]
        decide
      · exact hprocessing hstatus
  | recover jobId readAt =>
      simp only [update, OcrJobService.recoverUpdate, Bool.and_eq_true, decide_eq_true_eq] at h
      exact hprocessing h.1
  | fail jobId errorCode errorMessage => exact of_decide_eq_true h
  | cancel jobId errorCode errorMessage => exact of_decide_eq_true h
  | _ => exact hprocessing (of_decide_eq_true h)

/-- No write changes the row of a terminal job. -/
theorem find_of_terminal (w : Write) {jobId : ℕ} {job : OcrJob}
    (hjob : db.ocrJobs.find jobId = some job) (hterminal : job.status ∈ TERMINAL_OCR_STATUSES) :
  (w.perform staleMs now db).1.ocrJobs.find jobId = some job
  := by
  rw [find_perform]
  split
  · rename_i heq
    subst heq
    have hguard : (w.update staleMs now db).guard job = false := by
      by_contra hne
      have hactive := w.active_of_guard (Bool.not_eq_false _ ▸ hne)
      exact (mem_terminal_iff job.status).mp hterminal hactive
    rw [hjob, Option.map_some, Update.apply_of_not_guard _ hguard]
  · exact hjob

/-- No write changes the owner of a document. -/
theorem ownerOf_perform (w : Write) (documentId : ℕ) :
  (w.perform staleMs now db).1.ownerOf documentId = db.ownerOf documentId
  := by
  cases w with
  | setTotalPages jobId measuredId totalPages =>
      unfold Database.ownerOf
      simp only [perform, OcrJobService.setTotalPages, Table.find_updateMany_on]
      split
      · rename_i heq
        subst heq
        rw [Option.map_map]
        congr 1
        ext document
        simp only [Function.comp_apply, Update.apply]
        split
        · rfl
        · rfl
      · rfl
  | finalize jobId =>
      simp only [perform, OcrJobService.finalize]
      split
      · rfl
      · rfl
  | _ => rfl

end Write

/-! ### What the pages add up to -/

theorem mem_failedPages_iff {pages : List OcrPage} {page : OcrPage} :
  page ∈ failedPages pages ↔ page ∈ pages ∧ page.status = .FAILED
  := by
  simp [failedPages]

/-- A job is COMPLETED when it has pages and none of them FAILED. -/
theorem finalStatus_eq_completed_iff {pages : List OcrPage} :
  finalStatus pages = .COMPLETED ↔ pages ≠ [] ∧ ∀ page ∈ pages, page.status ≠ .FAILED
  := by
  have hnone : (failedPages pages).length = 0 ↔ ∀ page ∈ pages, page.status ≠ .FAILED := by
    rw [List.length_eq_zero_iff, failedPages, List.filter_eq_nil_iff]
    simp
  rw [← hnone, ← List.length_pos_iff_ne_nil]
  have hle : (failedPages pages).length ≤ pages.length := List.length_filter_le _ _
  unfold finalStatus
  split
  · simp only [reduceCtorEq, false_iff]
    omega
  · split
    · simp only [reduceCtorEq, false_iff]
      omega
    · simp only [true_iff]
      omega

/-- A job is PARTIAL when some of its pages FAILED and some did not. -/
theorem finalStatus_eq_partial_iff {pages : List OcrPage} :
  finalStatus pages = .PARTIAL
    ↔ (∃ page ∈ pages, page.status = .FAILED) ∧ ∃ page ∈ pages, page.status ≠ .FAILED
  := by
  have hsome : 0 < (failedPages pages).length ↔ ∃ page ∈ pages, page.status = .FAILED := by
    rw [List.length_pos_iff_exists_mem]
    simp [mem_failedPages_iff]
  have hall : (failedPages pages).length = pages.length ↔ ∀ page ∈ pages, page.status = .FAILED := by
    rw [failedPages, List.length_filter_eq_length_iff]
    simp
  have hsomeNot : (∃ page ∈ pages, page.status ≠ .FAILED)
      ↔ (failedPages pages).length ≠ pages.length := by
    rw [ne_eq, hall]
    simp
  rw [← hsome, hsomeNot]
  have hle : (failedPages pages).length ≤ pages.length := List.length_filter_le _ _
  unfold finalStatus
  split
  · simp only [reduceCtorEq, false_iff]
    omega
  · split
    · simp only [true_iff]
      omega
    · simp only [reduceCtorEq, false_iff]
      omega

/-- A job is MIXED when its pages used both methods. -/
theorem extractionMethodOf_eq_mixed_iff {pages : List OcrPage} :
  extractionMethodOf pages = some .MIXED
    ↔ (∃ page ∈ pages, page.method = some .NATIVE_TEXT) ∧ ∃ page ∈ pages, page.method = some .OCR
  := by
  have hmem : ∀ method, (∃ page ∈ pages, page.method = some method)
      ↔ method ∈ (pages.filterMap OcrPage.method).dedup := by
    intro method
    simp [List.mem_dedup]
  rw [hmem, hmem]
  unfold extractionMethodOf
  have hnodup := List.nodup_dedup (pages.filterMap OcrPage.method)
  generalize (pages.filterMap OcrPage.method).dedup = methods at hnodup
  match methods, hnodup with
  | [], _ => simp
  | [method], _ => cases method <;> simp [PageMethod.extractionMethod]
  | first :: second :: rest, hnodup =>
      have hne : first ≠ second := by
        rintro rfl
        simp at hnodup
      cases first <;> cases second <;> simp_all

end DocuAI
