import DocuAI.Documents.Calls
import DocuAI.Folders.Calls
import DocuAI.Ocr.Confinement

/-!
# The backend

The calls on folders and documents, the requests for text extraction, the workers and the
reconcilers on one database.  A step of the backend is a step of one of them on its part of the
state, and what they model of each other is left to the others themselves.

The id of a folder is generated once: folders are the only rows that are ever deleted, and no new
one gets the id of an old one.
-/

namespace DocuAI

structure AppConfig where
  documents : DocumentsConfig
  storage : StorageConfig
  /-- Belongs to the settings of the storage. -/
  downloadUrlTtlSeconds : ℕ
  ocr : OcrConfig

namespace Backend

/-! ### Tables -/

/-- The tables of the database, and the objects of the storage. -/
structure Tables extends Database where
  folders : Table Folder.id
  objects : Table StoredObject.key

/-- The rows of a user, and the objects under the keys of the user. -/
def Tables.only (t : Tables) (userId : ℕ) : Tables where
  toDatabase := t.toDatabase.only userId
  folders := t.folders.restrict (Folder.isOf userId)
  objects := t.objects.restrict (StoredObject.isOf userId)

/-! ### States -/

structure State (config : AppConfig) where
  now : ℕ
  tables : Tables
  folderCalls : Table Folders.Call.id
  documentCalls : Table (Documents.Call.id : Documents.Call config.documents → ℕ)
  ocrCalls : Table OcrService.Call.id
  processes : Table OcrWorker.Process.id
  reconcilers : Table OcrWorker.Reconciler.id
  /-- The ids of the folders there have ever been. -/
  folderIds : List ℕ
  issued : List (Upload config.documents)
  urls : List PresignedUrl
  heads : List (StorageKey × StoredObjectMetadata)
  events : List SecurityEvent

namespace State

variable {config : AppConfig} (s : State config)

/-- The part of the state the calls on folders work on. -/
def folders : Folders.State where
  now := s.now
  folders := s.tables.folders
  documents := s.tables.documents
  calls := s.folderCalls

def withFolders (part : Folders.State) : State config :=
  { s with
    tables := { s.tables with folders := part.folders, documents := part.documents }
    folderCalls := part.calls }

/-- The part of the state the calls on documents work on. -/
def documents : Documents.State config.documents where
  now := s.now
  documents := s.tables.documents
  folders := s.tables.folders
  objects := s.tables.objects
  calls := s.documentCalls
  issued := s.issued
  urls := s.urls
  heads := s.heads
  events := s.events

def withDocuments (part : Documents.State config.documents) : State config :=
  { s with
    tables :=
      { s.tables with documents := part.documents, folders := part.folders, objects := part.objects }
    documentCalls := part.calls
    issued := part.issued
    urls := part.urls
    heads := part.heads
    events := part.events }

/-- The part of the state the requests for text extraction and the workers work on. -/
def ocr : OcrService.State where
  worker :=
    { now := s.now
      db := s.tables.toDatabase
      processes := s.processes
      reconcilers := s.reconcilers }
  calls := s.ocrCalls

def withOcr (part : OcrService.State) : State config :=
  { s with
    tables := { s.tables with toDatabase := part.worker.db }
    processes := part.worker.processes
    reconcilers := part.worker.reconcilers
    ocrCalls := part.calls }

end State

/-! ### Steps -/

inductive Label where
  /-- Time passes. -/
  | tick (ms : ℕ)
  | folders (a : Folders.Label)
  | documents (a : Documents.Label)
  | ocr (a : OcrService.Label)

/-- Whether a label of the calls on folders is one of their own. -/
def ofFolders : Folders.Label → Bool
  | .call _ _ _ | .step _ _ => true
  | .tick _ | .writeDocuments _ => false

/-- The id a step of the calls on folders generates. -/
def generated : Folders.Label → Option ℕ
  | .step _ (.insert id) => some id
  | _ => none

/-- Whether a label of the calls on documents is one of their own, or an upload of a client. -/
def ofDocuments : Documents.Label → Bool
  | .call _ _ _ | .step _ _ | .put _ _ _ _ => true
  | .tick _ | .writeFolder _ | .removeFolder _ _ | .setTotalPages _ _ => false

/-- Whether a label of the text extraction is one of its own. -/
def ofOcr : OcrService.Label → Bool
  | .worker (.tick _) | .worker (.writeDocument _) => false
  | _ => true

section

variable (config : AppConfig) (unicode : Unicode) (hashtext : ℕ → ℕ)

/-- One step of the backend. -/
def step (s : State config) : Label → Option (State config)
  | .tick ms => some { s with now := s.now + ms }
  | .folders a =>
      if ofFolders a ∧ ∀ id ∈ generated a, id ∉ s.folderIds then do
        let part ← Folders.step config.documents hashtext s.folders a
        some { s.withFolders part with folderIds := s.folderIds ++ (generated a).toList }
      else none
  | .documents a =>
      if ofDocuments a then do
        let part ← Documents.step config.storage unicode s.documents a
        some (s.withDocuments part)
      else none
  | .ocr a =>
      if ofOcr a then do
        let part ← OcrService.step config.ocr unicode hashtext s.ocr a
        some (s.withOcr part)
      else none

/-- The backend.  Runs start without rows, calls and workers. -/
def system : TransitionSystem (State config) Label where
  init s :=
    (Folders.system config.documents hashtext).init s.folders
      ∧ (Documents.system config.documents config.storage unicode).init s.documents
      ∧ (OcrService.system config.ocr unicode hashtext).init s.ocr
      ∧ s.folderIds = []
  step := step config unicode hashtext

end

end Backend

end DocuAI
