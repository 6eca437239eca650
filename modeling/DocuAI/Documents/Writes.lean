import DocuAI.Config
import DocuAI.Documents.Service
import DocuAI.Documents.FileName

/-!
# Declarations and writes of documents

What a client declares of a file before it may upload it, and the statements that change a document.
Every statement is an update with its conditions in the `WHERE` clause; the status of a document
changes by four of them.
-/

namespace DocuAI

open JsString

/-! ### Declarations -/

/-- What a client declares of a file, validated against the limits. -/
structure Declaration (config : DocumentsConfig) where
  contentType : JsString
  fileSize : ℕ
  fileName : JsString
  allowed : contentType ∈ config.allowedMimeTypes
  pos : 1 ≤ fileSize
  le_max : fileSize ≤ config.maxFileSizeBytes
  deriving DecidableEq

/-- A declaration the server has issued a key for. -/
structure Upload (config : DocumentsConfig) extends Declaration config where
  storageKey : StorageKey
  deriving DecidableEq

structure CreateUploadUrlDto where
  fileName : JsString
  contentType : JsString
  fileSize : ℕ
  deriving DecidableEq

namespace DocumentFilesService

/-- `Number.MAX_SAFE_INTEGER`. -/
def MAX_SAFE_INTEGER : ℕ := 9007199254740991

variable (config : DocumentsConfig) (unicode : Unicode)

def validateContentType (raw : JsString) :
    Except AppException { contentType : JsString // contentType ∈ config.allowedMimeTypes } :=
  let contentType := normalizeMimeType unicode raw
  if h : contentType ∈ config.allowedMimeTypes then .ok ⟨contentType, h⟩
  else
    .error (unsupportedFileType
      (js "Unsupported file type; allowed: " ++ (js ", ").intercalate config.allowedMimeTypes))

def validateFileSize (fileSize : ℕ) :
    Except AppException { n : ℕ // 1 ≤ n ∧ n ≤ config.maxFileSizeBytes } :=
  if h : MAX_SAFE_INTEGER < fileSize ∨ fileSize < 1 then
    .error ⟨.BAD_REQUEST, .VALIDATION_ERROR, js "fileSize must be a positive integer"⟩
  else if hmax : config.maxFileSizeBytes < fileSize then
    .error (fileTooLarge config.maxFileSizeBytes)
  else .ok ⟨fileSize, by omega, by omega⟩

def validateFileName (raw contentType : JsString) : Except AppException JsString :=
  match sanitizeFileName unicode raw with
  | none => .error ⟨.BAD_REQUEST, .VALIDATION_ERROR, js "fileName is not a valid file name"⟩
  | some fileName =>
      if (mimeTypeForExtension (extensionOf unicode fileName)).any (· ≠ .mimeType contentType) then
        .error (unsupportedFileType
          (js "The file extension does not match the declared content type"))
      else .ok fileName

/-- The validation of a declaration. -/
def declare (dto : CreateUploadUrlDto) : Except AppException (Declaration config) := do
  let contentType ← validateContentType config unicode dto.contentType
  let fileSize ← validateFileSize config dto.fileSize
  let fileName ← validateFileName unicode dto.fileName contentType.val
  pure
    { contentType := contentType.val
      fileSize := fileSize.val
      fileName
      allowed := contentType.property
      pos := fileSize.property.1
      le_max := fileSize.property.2 }

end DocumentFilesService

/-! ### Writes -/

/-- States from which a (new) upload may be requested. -/
def UPLOADABLE_STATUSES : List DocumentStatus := [.DRAFT, .UPLOADING, .FAILED]

/-- The fields an update of the metadata sets.  A field that is absent is left alone. -/
structure DocumentData where
  title : Option (Option JsString)
  description : Option (Option JsString)
  folderId : Option (Option ℕ)
  deriving DecidableEq

/-- The statements that change rows of documents. -/
inductive DocumentWrite (config : DocumentsConfig) where
  /-- `update`. -/
  | save (id userId : ℕ) (data : DocumentData)
  /-- `createUploadUrl`. -/
  | issue (id userId : ℕ) (upload : Upload config)
  /-- `completeUpload`. -/
  | complete (id userId : ℕ) (storageKey : StorageKey) (fileSize : ℕ) (mimeType : Option JsString)
  /-- `rejectUpload`. -/
  | reject (id userId : ℕ) (storageKey : StorageKey)
  /-- `remove`. -/
  | remove (id userId deletedAt : ℕ)
  /-- `setTotalPages` of the worker. -/
  | setTotalPages (id totalPages : ℕ)
  /-- The removal of a folder. -/
  | unfile (folderId userId : ℕ)
  /-- `ON DELETE SET NULL` of the reference to a folder. -/
  | unreference (folderId : ℕ)

/-- What a write does to a row. -/
def DocumentWrite.update {config : DocumentsConfig} (now : ℕ) :
    DocumentWrite config → Update Document.id
  | .save id userId data =>
      { guard := fun document =>
          document.id = id && document.userId = userId && document.deletedAt.isNone
        data := fun document =>
          { document with
            title := (data.title.join).getD document.title
            description := data.description.getD document.description
            folderId := data.folderId.getD document.folderId
            updatedAt := now } }
  | .issue id userId upload =>
      { guard := fun document =>
          document.id = id && document.userId = userId && document.deletedAt.isNone
            && document.status ∈ UPLOADABLE_STATUSES
        data := fun document =>
          { document with
            status := .UPLOADING
            storageKey := some upload.storageKey
            mimeType := some upload.contentType
            fileSize := some upload.fileSize
            originalName := some upload.fileName
            pageCount := none
            updatedAt := now } }
  | .complete id userId storageKey fileSize mimeType =>
      { guard := fun document =>
          document.id = id && document.userId = userId && document.deletedAt.isNone
            && document.status = .UPLOADING && document.storageKey = some storageKey
        data := fun document =>
          { document with status := .READY, fileSize := some fileSize, mimeType, updatedAt := now } }
  | .reject id userId storageKey =>
      { guard := fun document =>
          document.id = id && document.userId = userId && document.status = .UPLOADING
            && document.storageKey = some storageKey
        data := fun document => { document with status := .FAILED, updatedAt := now } }
  | .remove id userId deletedAt =>
      { guard := fun document =>
          document.id = id && document.userId = userId && document.deletedAt.isNone
        data := fun document =>
          { document with deletedAt := some deletedAt, status := .DELETED, updatedAt := now } }
  | .setTotalPages id totalPages =>
      { guard := fun document => document.id = id && document.deletedAt.isNone
        data := fun document => { document with pageCount := some totalPages, updatedAt := now } }
  | .unfile folderId userId =>
      { guard := fun document => document.folderId = some folderId && document.userId = userId
        data := fun document => { document with folderId := none, updatedAt := now } }
  | .unreference folderId =>
      { guard := fun document => document.folderId = some folderId
        data := fun document => { document with folderId := none } }

/-- The row `create` inserts. -/
def DocumentsService.createdDocument (id userId : ℕ) (title : JsString)
    (description : Option JsString) (folderId : Option ℕ) (now : ℕ) : Document where
  id := id
  userId := userId
  folderId := folderId
  title := title
  description := description
  status := .DRAFT
  mimeType := none
  fileSize := none
  pageCount := none
  storageKey := none
  originalName := none
  createdAt := now
  updatedAt := now
  deletedAt := none

end DocuAI
