import DocuAI.Documents.Calls
import DocuAI.Ocr.Requests

/-!
# Queries

The operations of the API that change nothing: the lists of folders and documents, the download of a
file, the status of a document's text extraction and its results.  How the database compares and
searches texts is a parameter; rows that a query leaves unordered come in the order of their table.
-/

namespace DocuAI

/-- What the database makes of texts: the order of its collation, and insensitive containment. -/
structure Texts where
  collate : JsString → JsString → Ordering
  contains : JsString → JsString → Bool

/-- `orderBy`: the rows in the given order, rows it does not tell apart as they were. -/
def orderBy {α : Type} (order : α → α → Ordering) (rows : List α) : List α :=
  rows.insertionSort fun a b => order a b ≠ .gt

/-! ### Pages of a list -/

structure Pagination where
  page : ℕ
  limit : ℕ
  total : ℕ
  totalPages : ℕ
  deriving DecidableEq

/-- The pagination of `total` rows: `Math.ceil(total / limit)` pages. -/
def pagination (page limit total : ℕ) : Pagination where
  page := page
  limit := limit
  total := total
  totalPages := (total + limit - 1) / limit

/-- `skip: (page - 1) * limit, take: limit`. -/
def pageOf {α : Type} (page limit : ℕ) (rows : List α) : List α :=
  (rows.drop ((page - 1) * limit)).take limit

/-! ### Folders -/

namespace FoldersService

/-- The folders of the user, below a parent if one is given.  The parent has to be the user's. -/
def list (texts : Texts) (folders : Table Folder.id) (userId : ℕ) (parentId : Option (Option ℕ)) :
    Except AppException (List Folder) := do
  match parentId.join with
  | some parentId => let _ ← getOwned folders userId parentId
  | none => pure ()
  let found := folders.rows.filter fun folder =>
    folder.userId = userId && parentId.all fun parentId => folder.parentId = parentId
  pure (orderBy
    (fun a b => (texts.collate a.name b.name).then (compare a.createdAt b.createdAt)) found)

end FoldersService

/-! ### Documents -/

inductive DocumentSortField where
  | createdAt
  | updatedAt
  | title
  | fileSize
  deriving DecidableEq

inductive SortOrder where
  | asc
  | desc
  deriving DecidableEq

structure ListDocumentsQueryDto where
  page : ℕ
  limit : ℕ
  folderId : Option (Option ℕ)
  status : Option DocumentStatus
  search : Option JsString
  sort : DocumentSortField
  order : SortOrder
  deriving DecidableEq

structure DocumentPage where
  items : List Document
  pagination : Pagination
  deriving DecidableEq

/-- The order of a column.  A size that is not known comes after the others. -/
def DocumentSortField.compare (texts : Texts) (a b : Document) : DocumentSortField → Ordering
  | .createdAt => Ord.compare a.createdAt b.createdAt
  | .updatedAt => Ord.compare a.updatedAt b.updatedAt
  | .title => texts.collate a.title b.title
  | .fileSize =>
      match a.fileSize, b.fileSize with
      | none, none => .eq
      | none, some _ => .gt
      | some _, none => .lt
      | some m, some n => Ord.compare m n

/-- The order of a column, ascending or descending. -/
def SortOrder.apply : SortOrder → Ordering → Ordering
  | .asc, ordering => ordering
  | .desc, ordering => ordering.swap

namespace DocumentsService

/-- Whether a document is one of those a list asks for. -/
def listed (texts : Texts) (userId : ℕ) (query : ListDocumentsQueryDto) (document : Document) :
    Bool :=
  document.userId = userId && document.deletedAt.isNone
    && (query.folderId.all fun folderId => document.folderId = folderId)
    && (query.status.all fun status => document.status = status)
    && (query.search.filter (· ≠ [])).all fun search =>
      texts.contains document.title search
        || document.description.any fun description => texts.contains description search

/-- One page of the live documents of the user, searched, filtered and sorted. -/
def list (texts : Texts) (folders : Table Folder.id) (documents : Table Document.id) (userId : ℕ)
    (query : ListDocumentsQueryDto) : Except AppException DocumentPage := do
  match query.folderId.join with
  | some folderId => let _ ← FoldersService.getOwned folders userId folderId
  | none => pure ()
  let found := documents.rows.filter (listed texts userId query)
  let sorted := orderBy
    (fun a b => (query.order.apply (query.sort.compare texts a b)).then (compare a.id b.id)) found
  pure
    { items := pageOf query.page query.limit sorted
      pagination := pagination query.page query.limit found.length }

end DocumentsService

/-- A presigned download URL: the store answers with the signed type and disposition. -/
structure PresignedDownloadUrl where
  key : StorageKey
  responseContentType : JsString
  responseContentDisposition : JsString
  expiresAt : ℕ
  expiresInSeconds : ℕ
  deriving DecidableEq

structure DownloadUrlResult where
  presigned : PresignedDownloadUrl
  fileName : JsString
  contentType : JsString
  fileSize : ℕ
  deriving DecidableEq

namespace DocumentFilesService

/-- A URL for the file of a READY document, `none` when the name of the file cannot be encoded. -/
def createDownloadUrl (downloadUrlTtlSeconds : ℕ) (documents : Table Document.id)
    (now userId documentId : ℕ) : Option (Except AppException DownloadUrlResult) :=
  match DocumentsService.getOwned documents userId documentId with
  | .error error => some (.error error)
  | .ok document =>
      match document.status, document.storageKey, document.mimeType.filter (· ≠ []) with
      | .READY, some key, some mimeType => do
          let fileName := document.originalName.getD (jsNat document.id)
          let disposition ← attachmentContentDisposition fileName
          some (.ok
            { presigned :=
                { key
                  responseContentType := mimeType
                  responseContentDisposition := disposition
                  expiresAt := now + downloadUrlTtlSeconds * 1000
                  expiresInSeconds := downloadUrlTtlSeconds }
              fileName
              contentType := mimeType
              fileSize := document.fileSize.getD 0 })
      | _, _, _ => some (.error uploadNotReady)

end DocumentFilesService

/-! ### Text extraction -/

structure OcrResultsQueryDto where
  page : ℕ
  limit : ℕ
  pageNumber : Option ℕ
  jobId : Option ℕ
  deriving DecidableEq

structure OcrResults where
  job : OcrJob
  pages : List OcrPage
  pagination : Pagination
  deriving DecidableEq

namespace OcrJobService

variable (db : Database)

def findOwned (jobId documentId userId : ℕ) : Option OcrJob :=
  (db.ocrJobs.find jobId).filter fun job => job.documentId = documentId && job.userId = userId

/-- The pages of a job, or the one with a number. -/
def pages (jobId : ℕ) (query : OcrResultsQueryDto) : List OcrPage :=
  (db.pagesOf jobId).filter fun page =>
    query.pageNumber.all fun pageNumber => page.pageNumber = pageNumber

end OcrJobService

namespace OcrService

variable (db : Database) (userId documentId : ℕ)

/-- The latest job of a document. -/
def status : Except AppException OcrJob := do
  let _ ← DocumentsService.getOwned db.documents userId documentId
  match OcrJobService.latestForDocument db documentId userId with
  | none => .error ocrNotFound
  | some job => pure job

/-- One page of the results of a terminal job: the given one, or the latest of the document. -/
def results (query : OcrResultsQueryDto) : Except AppException OcrResults := do
  let _ ← DocumentsService.getOwned db.documents userId documentId
  let found :=
    match query.jobId with
    | some jobId => OcrJobService.findOwned db jobId documentId userId
    | none => OcrJobService.latestForDocument db documentId userId
  match found with
  | none => .error ocrNotFound
  | some job =>
      if job.status ∈ ACTIVE_OCR_STATUSES then .error (ocrNotReady job.status.name)
      else
        let pages := OcrJobService.pages db job.id query
        let sorted := orderBy (fun a b => compare a.pageNumber b.pageNumber) pages
        pure
          { job
            pages := pageOf query.page query.limit sorted
            pagination := pagination query.page query.limit pages.length }

end OcrService

end DocuAI
