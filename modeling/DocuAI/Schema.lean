import DocuAI.JsString
import DocuAI.Library.Double
import DocuAI.Library.Table

/-!
# The database schema

The rows of the database and the enumerations of their columns.  Identifiers are natural numbers,
which the program only compares, and times are milliseconds on one clock.
-/

namespace DocuAI

/-! ### Users and sessions -/

inductive UserStatus where
  | ACTIVE
  | SUSPENDED
  | DELETED
  deriving DecidableEq

structure User where
  id : ℕ
  /-- Always stored normalised. -/
  email : JsString
  passwordHash : JsString
  name : Option JsString
  avatarUrl : Option JsString
  status : UserStatus
  emailVerified : Bool
  createdAt : ℕ
  updatedAt : ℕ
  deriving DecidableEq

/-- One device session.  Only a hash of the refresh token is stored. -/
structure RefreshToken where
  id : ℕ
  userId : ℕ
  tokenHash : JsString
  expiresAt : ℕ
  /-- Set on logout, rotation or security revocation. -/
  revokedAt : Option ℕ
  deviceName : Option JsString
  userAgent : Option JsString
  ipAddress : Option JsString
  createdAt : ℕ
  updatedAt : ℕ
  deriving DecidableEq

/-! ### Documents -/

/-- Lifecycle of a document's file. -/
inductive DocumentStatus where
  | DRAFT
  | UPLOADING
  | READY
  | PROCESSING
  | FAILED
  | DELETED
  deriving DecidableEq

/-- An object key `users/{userId}/documents/{documentId}/{random}`. -/
structure StorageKey where
  userId : ℕ
  documentId : ℕ
  random : ℕ
  deriving DecidableEq

/-- A document of a user.  Its binary lives in object storage, under `storageKey`. -/
structure Document where
  id : ℕ
  userId : ℕ
  folderId : Option ℕ
  title : JsString
  description : Option JsString
  status : DocumentStatus
  mimeType : Option JsString
  fileSize : Option ℕ
  pageCount : Option ℕ
  storageKey : Option StorageKey
  originalName : Option JsString
  createdAt : ℕ
  updatedAt : ℕ
  deletedAt : Option ℕ
  deriving DecidableEq

/-- A folder of a user. -/
structure Folder where
  id : ℕ
  userId : ℕ
  name : JsString
  parentId : Option ℕ
  createdAt : ℕ
  updatedAt : ℕ
  deriving DecidableEq

/-- The document is the user's. -/
def Document.isOf (userId : ℕ) (document : Document) : Bool :=
  document.userId = userId

/-- The folder is the user's. -/
def Folder.isOf (userId : ℕ) (folder : Folder) : Bool :=
  folder.userId = userId

/-! ### OCR jobs and pages -/

/-- The safe, documented error codes of OCR. -/
inductive OcrErrorCode where
  | OCR_NOT_FOUND
  | OCR_NOT_READY
  | OCR_ALREADY_PROCESSING
  | OCR_UNSUPPORTED_LANGUAGE
  | OCR_UNSUPPORTED_FILE_TYPE
  | OCR_FILE_TOO_LARGE
  | OCR_PAGE_LIMIT_EXCEEDED
  | OCR_PAGE_TOO_LARGE
  | OCR_INVALID_FILE
  | OCR_PROCESSING_TIMEOUT
  | OCR_PROCESSING_FAILED
  | OCR_STORAGE_ERROR
  | OCR_TEXT_LIMIT_EXCEEDED
  | OCR_WORKER_INTERRUPTED
  | OCR_DOCUMENT_UNAVAILABLE
  | OCR_DOCUMENT_NOT_READY
  | OCR_RETRY_NOT_ALLOWED
  | OCR_TOO_MANY_JOBS
  | OCR_UNAVAILABLE
  deriving DecidableEq

/-- Lifecycle of one extraction attempt over a document. -/
inductive OcrJobStatus where
  | QUEUED
  | PROCESSING
  | COMPLETED
  | PARTIAL
  | FAILED
  | CANCELLED
  deriving DecidableEq

/-- How the text of a job was obtained. -/
inductive OcrExtractionMethod where
  | NATIVE_TEXT
  | OCR
  | MIXED
  deriving DecidableEq

/-- How the text of a page was obtained: the extraction methods but `MIXED`, which no page has. -/
inductive PageMethod where
  | NATIVE_TEXT
  | OCR
  deriving DecidableEq

/-- The extraction method of a job all of whose pages have the given method. -/
def PageMethod.extractionMethod : PageMethod → OcrExtractionMethod
  | .NATIVE_TEXT => .NATIVE_TEXT
  | .OCR => .OCR

inductive OcrPageStatus where
  | COMPLETED
  | EMPTY
  | FAILED
  deriving DecidableEq

/-- One text-extraction job. -/
structure OcrJob where
  id : ℕ
  documentId : ℕ
  userId : ℕ
  status : OcrJobStatus
  language : JsString
  extractionMethod : Option OcrExtractionMethod
  totalPages : Option ℕ
  processedPages : ℕ
  failedPages : ℕ
  errorCode : Option OcrErrorCode
  errorMessage : Option JsString
  attemptCount : ℕ
  maxAttempts : ℕ
  heartbeatAt : Option ℕ
  startedAt : Option ℕ
  completedAt : Option ℕ
  createdAt : ℕ
  deriving DecidableEq

/-- The extracted text of one page of a job. -/
structure OcrPage where
  ocrJobId : ℕ
  pageNumber : ℕ
  status : OcrPageStatus
  method : Option PageMethod
  text : Option JsString
  confidence : Option Double
  charCount : ℕ
  truncated : Bool
  errorCode : Option OcrErrorCode
  deriving DecidableEq

/-- The key of the unique index on the pages. -/
def OcrPage.key (page : OcrPage) : ℕ × ℕ :=
  (page.ocrJobId, page.pageNumber)

/-- The tables OCR works on. -/
structure Database where
  ocrJobs : Table OcrJob.id
  ocrPages : Table OcrPage.key
  documents : Table Document.id

end DocuAI
