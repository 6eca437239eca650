import DocuAI.Backend.Queries
import DocuAI.Backend.System
import DocuAI.Library.Program

/-!
# Operations

`perform` executes one operation of the API by a user on the tables: a query, or a call that takes
its statements and storage requests one after the other until it returns.  What it meets besides
the tables is its environment: the time, the ids that are generated, what the storage answers, the
languages that are available, and the failures.
-/

namespace DocuAI

namespace Backend

/-- What an operation meets besides the tables.  Statements are numbered by how many more may
follow. -/
structure Environment where
  /-- The time at a statement. -/
  clock : ℕ → ℕ
  /-- Whether a statement fails, or a storage request other than a deletion. -/
  throws : ℕ → Bool
  /-- The id of the row that is inserted. -/
  id : ℕ
  /-- The random part of the key that is issued. -/
  random : ℕ
  /-- What the storage reports of the object under a key. -/
  head : StorageKey → Option StoredObjectMetadata
  /-- Whether the storage deletes the object under a key. -/
  deletes : StorageKey → Bool
  /-- The languages that are available. -/
  available : List JsString

/-! ### What calls meet -/

namespace Environment

variable (env : Environment)

def folders (n : ℕ) (phase : Folders.Phase) : Folders.Action :=
  if env.throws n then .throw
  else
    match phase with
    | .waiting _ => .lock
    | .creating _ _ => .insert env.id
    | _ => .advance

/-- The deletion of an object. -/
def deletion (key : StorageKey) : Documents.Action :=
  if env.deletes key then .advance else .undeleted

def documents {config : DocumentsConfig} (n : ℕ) (phase : Documents.Phase config) :
    Documents.Action :=
  if env.throws n then .throw
  else
    match phase with
    | .creating _ => .insert env.id
    | .issuing _ _ => .issue env.random
    | .verifying _ key _ => .head (env.head key)
    | .superseding _ key _ => env.deletion key
    | .discarding _ key _ => env.deletion key
    | _ => .advance

def ocr (n : ℕ) (phase : OcrService.Phase) : OcrService.Action :=
  if env.throws n then .throw
  else
    match phase with
    | .owned _ _ | .resolving _ => .resolve env.available
    | .admitted _ => .create env.id (env.clock n)
    | _ => .advance

end Environment

/-! ### Calls as programs -/

section

variable (config : AppConfig) (unicode : Unicode) (hashtext : ℕ → ℕ) (env : Environment)

def foldersEnded : Folders.Phase → Bool
  | .returned _ | .rejected => true
  | _ => false

def foldersProgram : Program (Folders.Store × Folders.Call) where
  ended r := foldersEnded r.2.phase
  next n r := do
    let next ← r.2.act config.documents { r.1 with now := env.clock n } (env.folders n r.2.phase)
    some (next.1, { r.2 with phase := next.2 })

def documentsEnded {config : DocumentsConfig} : Documents.Phase config → Bool
  | .returned _ | .rejected => true
  | _ => false

def documentsProgram :
    Program (Documents.State config.documents × Documents.Call config.documents) where
  ended r := documentsEnded r.2.phase
  next n r := do
    let next ← r.2.act config.storage unicode { r.1 with now := env.clock n }
      (env.documents n r.2.phase)
    some (next.1, { r.2 with phase := next.2 })

def ocrEnded : OcrService.Phase → Bool
  | .returned _ | .rejected => true
  | _ => false

/-- What a call has committed in a step. -/
def committed (worker : OcrWorker.State) : Option OcrWorker.Label → Option OcrWorker.State
  | none => some worker
  | some a => OcrWorker.step config.ocr unicode worker a

def ocrProgram : Program (OcrService.State × OcrService.Call) where
  ended r := ocrEnded r.2.phase
  next n r := do
    let effect ← r.2.act config.ocr hashtext r.1 (env.ocr n r.2.phase)
    let worker ← committed config unicode r.1.worker effect.commit
    some ({ r.1 with worker }, { r.2 with phase := effect.phase })

end

/-! ### Operations -/

inductive Operation where
  | folders (operation : Folders.Operation)
  | getFolder (folderId : ℕ)
  | listFolders (parentId : Option (Option ℕ))
  | documents (operation : Documents.Operation)
  | getDocument (documentId : ℕ)
  | listDocuments (query : ListDocumentsQueryDto)
  | createDownloadUrl (documentId : ℕ)
  | ocr (documentId : ℕ) (operation : OcrService.Operation)
  | ocrStatus (documentId : ℕ)
  | ocrResults (documentId : ℕ) (query : OcrResultsQueryDto)
  deriving DecidableEq

/-- What an operation returns. -/
inductive Value where
  | folders (result : Folders.Result)
  | folder (folder : Folder)
  | folderList (folders : List Folder)
  | documents (result : Documents.Result)
  | document (document : Document)
  | documentPage (page : DocumentPage)
  | downloadUrl (result : DownloadUrlResult)
  | ocr (result : OcrService.OcrRequestResult)
  | ocrJob (job : OcrJob)
  | ocrResults (results : OcrResults)
  deriving DecidableEq

/-- The answer to an operation: a value, an exception of the API, or an internal error. -/
inductive Response where
  | value (value : Value)
  | exception (error : AppException)
  | internalError
  deriving DecidableEq

/-- The answer with the result of a service. -/
def respond {α : Type} (value : α → Value) : Except AppException α → Response
  | .ok result => .value (value result)
  | .error error => .exception error

def foldersResponse : Folders.Phase → Response
  | .returned result => respond .folders result
  | _ => .internalError

def documentsResponse {config : DocumentsConfig} : Documents.Phase config → Response
  | .returned result => respond .documents result
  | _ => .internalError

def ocrResponse : OcrService.Phase → Response
  | .returned result => respond .ocr result
  | _ => .internalError

/-- No call takes more statements and storage requests. -/
def MAX_STATEMENTS : ℕ := 10

/-! The calls, on the tables alone: nothing else is under way. -/

def foldersStart (env : Environment) (t : Tables) (userId : ℕ) (operation : Folders.Operation) :
    Folders.Store × Folders.Call :=
  ({ now := env.clock MAX_STATEMENTS, folders := t.folders, documents := t.documents },
    { id := 0, userId, phase := .waiting operation })

def documentsStart (config : AppConfig) (unicode : Unicode) (env : Environment) (t : Tables)
    (userId : ℕ) (operation : Documents.Operation) :
    Documents.State config.documents × Documents.Call config.documents :=
  ({ now := env.clock MAX_STATEMENTS
     documents := t.documents
     folders := t.folders
     objects := t.objects
     calls := Table.empty
     issued := []
     urls := []
     heads := []
     events := [] },
    { id := 0
      userId
      phase := operation.start config.documents unicode (env.clock MAX_STATEMENTS) })

def ocrStart (env : Environment) (t : Tables) (userId documentId : ℕ)
    (operation : OcrService.Operation) : OcrService.State × OcrService.Call :=
  ({ worker :=
       { now := env.clock MAX_STATEMENTS
         db := t.toDatabase
         processes := Table.empty
         reconcilers := Table.empty }
     calls := Table.empty },
    { id := 0, userId, documentId, operation, phase := .called })

/-- The answer to a query, unless it fails. -/
def answer (env : Environment) (response : Response) : Response :=
  if env.throws MAX_STATEMENTS then .internalError else response

/-- Executes an operation of a user: its answer, and the tables after it. -/
def perform (config : AppConfig) (unicode : Unicode) (hashtext : ℕ → ℕ) (texts : Texts)
    (env : Environment) (t : Tables) (userId : ℕ) : Operation → Option (Response × Tables)
  | .folders operation => do
      let r ← (foldersProgram config env).complete MAX_STATEMENTS
        (foldersStart env t userId operation)
      some (foldersResponse r.2.phase,
        { t with folders := r.1.folders, documents := r.1.documents })
  | .getFolder folderId =>
      some (answer env (respond .folder (FoldersService.getOwned t.folders userId folderId)), t)
  | .listFolders parentId =>
      some (answer env (respond .folderList (FoldersService.list texts t.folders userId parentId)),
        t)
  | .documents operation => do
      let r ← (documentsProgram config unicode env).complete MAX_STATEMENTS
        (documentsStart config unicode env t userId operation)
      some (documentsResponse r.2.phase,
        { t with documents := r.1.documents, folders := r.1.folders, objects := r.1.objects })
  | .getDocument documentId =>
      some (answer env
        (respond .document (DocumentsService.getOwned t.documents userId documentId)), t)
  | .listDocuments query =>
      some (answer env
        (respond .documentPage (DocumentsService.list texts t.folders t.documents userId query)), t)
  | .createDownloadUrl documentId =>
      let result := DocumentFilesService.createDownloadUrl config.downloadUrlTtlSeconds t.documents
        (env.clock MAX_STATEMENTS) userId documentId
      some (answer env (result.elim .internalError (respond .downloadUrl)), t)
  | .ocr documentId operation => do
      let r ← (ocrProgram config unicode hashtext env).complete MAX_STATEMENTS
        (ocrStart env t userId documentId operation)
      some (ocrResponse r.2.phase, { t with toDatabase := r.1.worker.db })
  | .ocrStatus documentId =>
      some (answer env (respond .ocrJob (OcrService.status t.toDatabase userId documentId)), t)
  | .ocrResults documentId query =>
      some (answer env
        (respond .ocrResults (OcrService.results t.toDatabase userId documentId query)), t)

end Backend

end DocuAI
