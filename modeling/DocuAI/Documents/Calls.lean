import DocuAI.Documents.Writes
import DocuAI.Folders.Service
import DocuAI.Library.Transition

/-!
# Calls on documents

The calls `create`, `update`, `createUploadUrl`, `completeUpload` and `remove` of the API, each of
which sends its statements and storage requests one at a time, beside clients that upload objects,
the removal of folders and the worker that counts pages.  What the object storage answers is up to
the labels.

The keys generated so far, the answers of `headObject` and the recorded security events are part of
the state; no call reads them.
-/

namespace DocuAI

/-- The security events of the calls, with what they say of the document. -/
inductive SecurityEvent where
  | DOCUMENT_CREATED (userId documentId : ℕ) (folderId : Option ℕ)
  | DOCUMENT_UPDATED (userId documentId : ℕ) (folderId : Option ℕ) (fields : JsString)
  | DOCUMENT_DELETED (userId documentId : ℕ)
  | DOCUMENT_ACCESS_DENIED (userId documentId : ℕ)
  | FOLDER_ACCESS_DENIED (userId folderId : ℕ)
  | FOLDER_DELETED (userId folderId : ℕ) (movedDocuments promotedFolders : ℕ)
  | UPLOAD_URL_CREATED (userId documentId : ℕ) (contentType : JsString)
      (fileSize expiresInSeconds : ℕ)
  | UPLOAD_COMPLETED (userId documentId : ℕ) (fileSize : ℕ) (contentType : Option JsString)
  | UPLOAD_REJECTED (userId documentId : ℕ) (reason : JsString)
  deriving DecidableEq

/-- The document whose upload the event says to be completed. -/
def SecurityEvent.completed : SecurityEvent → Option ℕ
  | .UPLOAD_COMPLETED _ documentId _ _ => some documentId
  | _ => none

/-! ### Object storage -/

/-- Metadata of an object, as the storage reports it. -/
structure StoredObjectMetadata where
  size : ℕ
  contentType : Option JsString
  etag : Option JsString
  deriving DecidableEq

/-- An object under its key. -/
structure StoredObject extends StoredObjectMetadata where
  key : StorageKey
  bytes : List UInt8
  deriving DecidableEq

/-- The object is under a key of the user. -/
def StoredObject.isOf (userId : ℕ) (object : StoredObject) : Bool :=
  object.key.userId = userId

/-- A presigned upload URL: the store accepts the signed type and length until it expires. -/
structure PresignedUrl where
  key : StorageKey
  contentType : JsString
  contentLength : ℕ
  expiresAt : ℕ
  expiresInSeconds : ℕ
  deriving DecidableEq

namespace Documents

/-! ### Calls -/

structure CreateDocumentDto where
  title : JsString
  description : Option JsString
  folderId : Option ℕ
  deriving DecidableEq

/-- The fields of an update.  The validation lets `null` through for each of them. -/
abbrev UpdateDocumentDto := DocumentData

structure CompleteUploadDto where
  etag : Option JsString
  deriving DecidableEq

inductive Operation where
  | create (dto : CreateDocumentDto)
  | update (documentId : ℕ) (dto : UpdateDocumentDto)
  | createUploadUrl (documentId : ℕ) (dto : CreateUploadUrlDto)
  | completeUpload (documentId : ℕ) (dto : CompleteUploadDto)
  | remove (documentId : ℕ)
  deriving DecidableEq

/-- What a call returns. -/
inductive Result where
  | document (document : Document)
  | upload (presigned : PresignedUrl) (document : Document)
  | deletion (id deletedAt : ℕ)
  deriving DecidableEq

/-- What contradicts the declaration of a file. -/
inductive Problem where
  | size_mismatch
  | too_large
  | type_mismatch
  | type_not_allowed
  | etag_mismatch
  deriving DecidableEq

def Problem.name : Problem → JsString
  | .size_mismatch => js "size_mismatch"
  | .too_large => js "too_large"
  | .type_mismatch => js "type_mismatch"
  | .type_not_allowed => js "type_not_allowed"
  | .etag_mismatch => js "etag_mismatch"

/-- Where a call stands: the statement or storage request it makes next. -/
inductive Phase (config : DocumentsConfig) where
  /-- `create`: the folder is looked up. -/
  | creatingIn (dto : CreateDocumentDto) (folderId : ℕ)
  | creating (dto : CreateDocumentDto)
  /-- `update`: the document is looked up. -/
  | updating (documentId : ℕ) (dto : UpdateDocumentDto)
  /-- `update`: the folder is looked up. -/
  | moving (current : Document) (data : DocumentData) (folderId : ℕ)
  | saving (current : Document) (data : DocumentData)
  | saved (current : Document) (data : DocumentData)
  /-- `createUploadUrl`: the document is looked up. -/
  | requesting (documentId : ℕ) (declaration : Declaration config)
  | issuing (current : Document) (declaration : Declaration config)
  /-- The object under a key that was replaced is deleted. -/
  | superseding (documentId : ℕ) (key : StorageKey) (upload : Upload config)
  | presigning (documentId : ℕ) (upload : Upload config)
  | presigned (documentId : ℕ) (upload : Upload config) (url : PresignedUrl)
  /-- `completeUpload`: the document is looked up. -/
  | completing (documentId : ℕ) (dto : CompleteUploadDto)
  /-- `headObject`. -/
  | verifying (current : Document) (key : StorageKey) (dto : CompleteUploadDto)
  | accepting (current : Document) (key : StorageKey) (head : StoredObjectMetadata)
  | confirming (documentId : ℕ) (head : StoredObjectMetadata) (completed : Bool)
  | rejecting (current : Document) (key : StorageKey) (problems : List Problem)
  /-- The object under a rejected key is deleted. -/
  | discarding (current : Document) (key : StorageKey) (problems : List Problem)
  | removing (documentId deletedAt : ℕ)
  /-- `notFound` counts the foreign documents with the id. -/
  | denying (documentId : ℕ)
  /-- `notFound` counts the folders with the id. -/
  | denyingFolder (folderId : ℕ)
  | returned (result : Except AppException Result)
  /-- A statement or storage request failed. -/
  | rejected
  deriving DecidableEq

/-- One call by a user. -/
structure Call (config : DocumentsConfig) where
  id : ℕ
  userId : ℕ
  phase : Phase config
  deriving DecidableEq

structure State (config : DocumentsConfig) where
  now : ℕ
  documents : Table Document.id
  folders : Table Folder.id
  objects : Table StoredObject.key
  calls : Table (Call.id : Call config → ℕ)
  /-- The keys generated so far, each with the declaration it was generated for. -/
  issued : List (Upload config)
  /-- The presigned upload URLs given to clients. -/
  urls : List PresignedUrl
  /-- What `headObject` has reported. -/
  heads : List (StorageKey × StoredObjectMetadata)
  events : List SecurityEvent

/-- What a call meets in a step, besides the state. -/
inductive Action where
  /-- The next statement or storage request. -/
  | advance
  /-- The insertion of a document, with its id. -/
  | insert (id : ℕ)
  /-- The update that stores a new key, with its random part. -/
  | issue (random : ℕ)
  /-- `headObject`, with what the storage reports. -/
  | head (answer : Option StoredObjectMetadata)
  /-- `deleteObject` fails, which the calls ignore. -/
  | undeleted
  /-- The statement or storage request fails, or the process dies. -/
  | throw

inductive Label where
  /-- Time passes. -/
  | tick (ms : ℕ)
  /-- A client calls. -/
  | call (id userId : ℕ) (operation : Operation)
  | step (callId : ℕ) (action : Action)
  /-- A client uploads an object through a URL it was given; the store gives it a tag. -/
  | put (url : PresignedUrl) (contentType : JsString) (bytes : List UInt8)
      (etag : Option JsString)
  /-- A folder is inserted or changed. -/
  | writeFolder (folder : Folder)
  /-- A user removes a folder. -/
  | removeFolder (userId folderId : ℕ)
  /-- The worker records the number of pages of a document. -/
  | setTotalPages (documentId totalPages : ℕ)

section

variable (config : DocumentsConfig) (storage : StorageConfig) (unicode : Unicode)

/-- The first phase of a call, `none` when the declaration of a file is not valid. -/
def Operation.start (now : ℕ) : Operation → Phase config
  | .create dto =>
      match dto.folderId with
      | none => .creating dto
      | some folderId => .creatingIn dto folderId
  | .update documentId dto => .updating documentId dto
  | .createUploadUrl documentId dto =>
      match DocumentFilesService.declare config unicode dto with
      | .ok declaration => .requesting documentId declaration
      | .error error => .returned (.error error)
  | .completeUpload documentId dto => .completing documentId dto
  | .remove documentId => .removing documentId now

/-- The type the storage reports, as far as it reports one. -/
def storedType (head : StoredObjectMetadata) : Option JsString :=
  (head.contentType.filter (· ≠ [])).map (normalizeMimeType unicode)

/-- `etag.replace(/^"|"$/g, '')`. -/
def unquote (etag : JsString) : JsString :=
  let unopened := if etag.head? = some 0x22 then etag.tail else etag
  if unopened.getLast? = some 0x22 then unopened.dropLast else unopened

/-- What contradicts the declaration of the file in what the storage reports. -/
def problemsOf (current : Document) (dto : CompleteUploadDto) (head : StoredObjectMetadata) :
    List Problem :=
  let declaredSize := current.fileSize.getD 0
  let stored := storedType unicode head
  let etag := (dto.etag.map unquote).filter (· ≠ [])
  let storedEtag := head.etag.filter (· ≠ [])
  (if head.size ≠ declaredSize then [.size_mismatch] else [])
    ++ (if config.maxFileSizeBytes < head.size then [.too_large] else [])
    ++ (if stored ≠ none ∧ stored ≠ current.mimeType then [.type_mismatch] else [])
    ++ (if stored.any fun type => !config.allowedMimeTypes.contains type then [.type_not_allowed]
      else [])
    ++ (if etag ≠ none ∧ storedEtag ≠ none ∧ etag ≠ storedEtag then [.etag_mismatch] else [])

/-- `emptyToNull`. -/
def emptyToNull (value : Option JsString) : Option JsString :=
  value.filter (· ≠ [])

/-- The fields an update sets. -/
def dataOf (dto : UpdateDocumentDto) : DocumentData where
  title := dto.title
  description := dto.description.map emptyToNull
  folderId := dto.folderId

/-- `Object.keys(data).sort().join(',')`. -/
def fieldsOf (data : DocumentData) : JsString :=
  (js ",").intercalate
    ((if data.description.isSome then [js "description"] else [])
      ++ (if data.folderId.isSome then [js "folderId"] else [])
      ++ (if data.title.isSome then [js "title"] else []))

variable {config}

/-- A statement that changes documents, and the number of rows it changed. -/
def State.send (s : State config) (w : DocumentWrite config) : State config × ℕ :=
  let updated := s.documents.updateMany (w.update s.now)
  ({ s with documents := updated.1 }, updated.2)

def State.record (s : State config) (event : SecurityEvent) : State config :=
  { s with events := s.events ++ [event] }

def State.deleteObject (s : State config) (key : StorageKey) : State config :=
  { s with objects := s.objects.erase key }

/-- Whether a row may refer to the folder. -/
def State.admits (s : State config) (folderId : Option ℕ) : Bool :=
  folderId.all fun folderId => (s.folders.find folderId).isSome

/-- `foldersService.getOwned`. -/
def State.ownsFolder (s : State config) (userId folderId : ℕ) : Bool :=
  (s.folders.find folderId).any fun folder => folder.userId = userId

def changedConcurrently : AppException :=
  invalidUpload (js "The document changed concurrently; retry")

namespace Call

variable (s : State config) (c : Call config)

/-- `create`. -/
def create (dto : CreateDocumentDto) (id : ℕ) : Option (State config × Phase config) :=
  let document := DocumentsService.createdDocument id c.userId dto.title
    (emptyToNull dto.description) dto.folderId s.now
  if !s.admits dto.folderId then some (s, .rejected)
  else do
    let documents ← s.documents.create document
    some ({ s with documents }.record (.DOCUMENT_CREATED c.userId id dto.folderId),
      .returned (.ok (.document document)))

/-- `update`: the statement that saves the fields.  The title cannot be set to `null`, and a row
that is changed can only refer to a folder that is there. -/
def save (current : Document) (data : DocumentData) : State config × Phase config :=
  if data.title = some none then (s, .rejected)
  else
    let sent := s.send (.save current.id c.userId data)
    if sent.2 = 1 then
      if s.admits data.folderId.join then (sent.1, .saved current data) else (s, .rejected)
    else (sent.1, .returned (.error documentNotFound))

/-- `createUploadUrl`: the statement that stores a new key. -/
def issue (current : Document) (declaration : Declaration config) (random : ℕ) :
    Option (State config × Phase config) :=
  let upload : Upload config := { declaration with storageKey := ⟨c.userId, current.id, random⟩ }
  if upload.storageKey ∈ s.issued.map Upload.storageKey then none
  else
    let sent := { s with issued := s.issued ++ [upload] }.send (.issue current.id c.userId upload)
    if sent.2 = 1 then
      match current.storageKey.filter (· ≠ upload.storageKey) with
      | some key => some (sent.1, .superseding current.id key upload)
      | none => some (sent.1, .presigning current.id upload)
    else some (sent.1, .returned (.error changedConcurrently))

/-- `completeUpload`: what the storage reports is compared with the declaration. -/
def verify (current : Document) (key : StorageKey) (dto : CompleteUploadDto)
    (answer : Option StoredObjectMetadata) : State config × Phase config :=
  match answer with
  | none => (s, .returned (.error uploadNotFound))
  | some head =>
      let logged := { s with heads := s.heads ++ [(key, head)] }
      match problemsOf config unicode current dto head with
      | [] => (logged, .accepting current key head)
      | problems => (logged, .rejecting current key problems)

/-- `completeUpload`: the statement that makes the document READY. -/
def accept (current : Document) (key : StorageKey) (head : StoredObjectMetadata) :
    State config × Phase config :=
  let mimeType := (storedType unicode head).or current.mimeType
  let sent := s.send (.complete current.id c.userId key head.size mimeType)
  (sent.1, .confirming current.id head (sent.2 = 1))

/-- `completeUpload`: the document is read again. -/
def confirm (documentId : ℕ) (head : StoredObjectMetadata) (completed : Bool) :
    State config × Phase config :=
  match DocumentsService.getOwned s.documents c.userId documentId with
  | .error _ => (s, .denying documentId)
  | .ok document =>
      if completed then
        (s.record (.UPLOAD_COMPLETED c.userId documentId head.size document.mimeType),
          .returned (.ok (.document document)))
      else if document.status ≠ .READY then (s, .returned (.error changedConcurrently))
      else (s, .returned (.ok (.document document)))

/-- The end of `rejectUpload`. -/
def discard (current : Document) (problems : List Problem) : State config × Phase config :=
  (s.record (.UPLOAD_REJECTED c.userId current.id
      ((js ",").intercalate (problems.map Problem.name))),
    .returned (.error (invalidUpload
      (js "The uploaded file does not match the declared metadata; request a new upload URL and "
        ++ js "upload again"))))

/-- `remove`. -/
def remove (documentId deletedAt : ℕ) : State config × Phase config :=
  let sent := s.send (.remove documentId c.userId deletedAt)
  if sent.2 = 1 then
    (sent.1.record (.DOCUMENT_DELETED c.userId documentId),
      .returned (.ok (.deletion documentId deletedAt)))
  else (sent.1, .denying documentId)

/-- `notFound` of a document: the access to a foreign one is recorded. -/
def deny (documentId : ℕ) : State config × Phase config :=
  let foreign := (s.documents.find documentId).any fun document => document.userId ≠ c.userId
  ((if foreign then s.record (.DOCUMENT_ACCESS_DENIED c.userId documentId) else s),
    .returned (.error documentNotFound))

/-- `notFound` of a folder. -/
def denyFolder (folderId : ℕ) : State config × Phase config :=
  let known := (s.folders.find folderId).isSome
  ((if known then s.record (.FOLDER_ACCESS_DENIED c.userId folderId) else s),
    .returned (.error folderNotFound))

/-- A document is looked up, and the call goes on with it. -/
def withOwned (documentId : ℕ) (next : Document → Phase config) : State config × Phase config :=
  match DocumentsService.getOwned s.documents c.userId documentId with
  | .error _ => (s, .denying documentId)
  | .ok document => (s, next document)

/-- The next statement or storage request of a call. -/
def advance : Option (State config × Phase config) :=
  match c.phase with
  | .creatingIn dto folderId =>
      some (s, if s.ownsFolder c.userId folderId then .creating dto else .denyingFolder folderId)
  | .updating documentId dto =>
      some (c.withOwned s documentId fun current =>
        match dto.folderId.join with
        | some folderId => .moving current (dataOf dto) folderId
        | none =>
            if dataOf dto = ⟨none, none, none⟩ then .returned (.ok (.document current))
            else .saving current (dataOf dto))
  | .moving current data folderId =>
      some (s, if s.ownsFolder c.userId folderId then .saving current data
        else .denyingFolder folderId)
  | .saving current data => some (c.save s current data)
  | .saved current data =>
      match DocumentsService.getOwned s.documents c.userId current.id with
      | .error _ => some (s, .denying current.id)
      | .ok document =>
          some (s.record
              (.DOCUMENT_UPDATED c.userId document.id document.folderId (fieldsOf data)),
            .returned (.ok (.document document)))
  | .requesting documentId declaration =>
      some (c.withOwned s documentId fun current =>
        if current.status ∈ UPLOADABLE_STATUSES then .issuing current declaration
        else .returned (.error (invalidUpload
          (js "This document already has a file; create a new document to upload another one"))))
  | .superseding documentId key upload =>
      some (s.deleteObject key, .presigning documentId upload)
  | .presigning documentId upload =>
      let url : PresignedUrl :=
        { key := upload.storageKey
          contentType := upload.contentType
          contentLength := upload.fileSize
          expiresAt := s.now + storage.uploadUrlTtlSeconds * 1000
          expiresInSeconds := storage.uploadUrlTtlSeconds }
      some (s, .presigned documentId upload url)
  | .presigned documentId upload url =>
      match DocumentsService.getOwned s.documents c.userId documentId with
      | .error _ => some (s, .denying documentId)
      | .ok document =>
          some ({ s with urls := s.urls ++ [url] }.record
              (.UPLOAD_URL_CREATED c.userId document.id upload.contentType upload.fileSize
                url.expiresInSeconds),
            .returned (.ok (.upload url document)))
  | .completing documentId dto =>
      some (c.withOwned s documentId fun current =>
        if current.status = .READY then .returned (.ok (.document current))
        else
          match current.status, current.storageKey with
          | .UPLOADING, some key => .verifying current key dto
          | _, _ => .returned (.error (invalidUpload
              (js "No upload is in progress for this document; request an upload URL first"))))
  | .accepting current key head => some (c.accept unicode s current key head)
  | .confirming documentId head completed => some (c.confirm s documentId head completed)
  | .rejecting current key problems =>
      some ((s.send (.reject current.id c.userId key)).1, .discarding current key problems)
  | .discarding current key problems => some (c.discard (s.deleteObject key) current problems)
  | .removing documentId deletedAt => some (c.remove s documentId deletedAt)
  | .denying documentId => some (c.deny s documentId)
  | .denyingFolder folderId => some (c.denyFolder s folderId)
  | _ => none

/-- One step of a call. -/
def act : Action → Option (State config × Phase config)
  | .advance => c.advance storage unicode s
  | .insert id =>
      match c.phase with
      | .creating dto => c.create s dto id
      | _ => none
  | .issue random =>
      match c.phase with
      | .issuing current declaration => c.issue s current declaration random
      | _ => none
  | .head answer =>
      match c.phase with
      | .verifying current key dto => some (verify unicode s current key dto answer)
      | _ => none
  | .undeleted =>
      match c.phase with
      | .superseding documentId _ upload => some (s, .presigning documentId upload)
      | .discarding current _ problems => some (c.discard s current problems)
      | _ => none
  | .throw =>
      match c.phase with
      | .returned _ | .rejected => none
      | _ => some (s, .rejected)

end Call

/-- The transaction that removes a folder: its documents move to the root, its children to its
parent.  It fails when a folder would still refer to the one that is deleted. -/
def State.removeFolder (s : State config) (userId folderId : ℕ) : Option (State config) :=
  match (s.folders.find folderId).filter (·.userId = userId) with
  | none => none
  | some folder =>
      let moved := s.send (.unfile folderId userId)
      let promoted := s.folders.updateMany (FoldersService.promote s.now folder userId)
      if promoted.1.rows.any fun child => child.id ≠ folderId && child.parentId = some folderId then
        none
      else
        let deleted := { moved.1 with folders := promoted.1.erase folderId }.send
          (.unreference folderId)
        some (deleted.1.record (.FOLDER_DELETED userId folderId moved.2 promoted.2))

/-- One step of the system. -/
def step (s : State config) : Label → Option (State config)
  | .tick ms => some { s with now := s.now + ms }
  | .call id userId operation => do
      let calls ← s.calls.create { id, userId, phase := operation.start config unicode s.now }
      some { s with calls }
  | .step callId action => do
      let c ← s.calls.find callId
      let next ← c.act storage unicode s action
      some { next.1 with calls := s.calls.put { c with phase := next.2 } }
  | .put url contentType bytes etag =>
      if url ∈ s.urls ∧ s.now ≤ url.expiresAt ∧ contentType = url.contentType
          ∧ bytes.length = url.contentLength then
        let object : StoredObject :=
          { key := url.key, size := bytes.length, contentType := some contentType, etag, bytes }
        some { s with objects := s.objects.put object }
      else none
  | .writeFolder folder => some { s with folders := s.folders.put folder }
  | .removeFolder userId folderId => s.removeFolder userId folderId
  | .setTotalPages documentId totalPages => some (s.send (.setTotalPages documentId totalPages)).1

end

/-- The calls on documents.  Runs start without documents, keys, calls and events. -/
def system (config : DocumentsConfig) (storage : StorageConfig) (unicode : Unicode) :
    TransitionSystem (State config) Label where
  init s :=
    s.documents.rows = [] ∧ s.calls.rows = [] ∧ s.issued = [] ∧ s.urls = [] ∧ s.heads = []
      ∧ s.events = []
  step := step storage unicode

/-! ### What a step of a call can be -/

variable {config : DocumentsConfig} {storage : StorageConfig} {unicode : Unicode}

/-- The removal of a folder changes documents, folders and what is recorded. -/
theorem State.removeFolder_eq_some {s s' : State config} {userId folderId : ℕ}
    (h : s.removeFolder userId folderId = some s') :
  ∃ documents folders events, s' = { s with documents, folders, events }
  := by
  unfold removeFolder at h
  split at h
  · cases h
  · simp only at h
    split at h
    · cases h
    · exact ⟨_, _, _, (Option.some.inj h).symm⟩

/-- The phases in which a call knows nothing of a file. -/
def Phase.plain : Phase config → Bool
  | .issuing _ _ | .superseding _ _ _ | .verifying _ _ _ | .accepting _ _ _ | .confirming _ _ true
  | .rejecting _ _ _ | .discarding _ _ _ => false
  | _ => true

/-- The steps of a call, by what they change. -/
inductive Call.Acts (unicode : Unicode) (s : State config) (c : Call config) :
    State config → Phase config → Prop where
  /-- Neither documents, keys nor reports change, and no upload is recorded as completed. -/
  | plain {objects : Table StoredObject.key} {urls : List PresignedUrl}
      {events : List SecurityEvent} {phase : Phase config}
      (hevents : events.filterMap SecurityEvent.completed
        = s.events.filterMap SecurityEvent.completed)
      (hplain : phase.plain = true) : Acts unicode s c { s with objects, urls, events } phase
  | creates {documents : Table Document.id} {id : ℕ} {title : JsString}
      {description : Option JsString} {folderId : Option ℕ} {event : SecurityEvent}
      {phase : Phase config}
      (hcreate : s.documents.create
        (DocumentsService.createdDocument id c.userId title description folderId s.now)
          = some documents)
      (hadmits : s.admits folderId = true) (hevent : event.completed = none)
      (hplain : phase.plain = true) : Acts unicode s c ({ s with documents }.record event) phase
  | saves {id : ℕ} {data : DocumentData} {phase : Phase config}
      (hadmits : ∀ r ∈ s.documents.rows,
        ((DocumentWrite.save id c.userId data : DocumentWrite config).update s.now).guard r = true →
        s.admits data.folderId.join = true)
      (hplain : phase.plain = true) : Acts unicode s c (s.send (.save id c.userId data)).1 phase
  | removes {id deletedAt : ℕ} {events : List SecurityEvent} {phase : Phase config}
      (hevents : events.filterMap SecurityEvent.completed
        = s.events.filterMap SecurityEvent.completed)
      (hplain : phase.plain = true) :
      Acts unicode s c { (s.send (.remove id c.userId deletedAt)).1 with events } phase
  | reads {documentId : ℕ} {current : Document} {phase : Phase config}
      (howned : DocumentsService.getOwned s.documents c.userId documentId = .ok current)
      (hphase : (∃ declaration, phase = .issuing current declaration)
        ∨ ∃ key dto, current.storageKey = some key ∧ phase = .verifying current key dto) :
      Acts unicode s c s phase
  | issues {current : Document} {declaration : Declaration config} {upload : Upload config}
      {phase : Phase config} (hphase : c.phase = .issuing current declaration)
      (hkey : ∃ random, upload.storageKey = ⟨c.userId, current.id, random⟩)
      (hfresh : upload.storageKey ∉ s.issued.map Upload.storageKey)
      (hnext : phase.plain = true
        ∨ (({ s with issued := s.issued ++ [upload] } : State config).send
            (.issue current.id c.userId upload)).2 = 1
          ∧ ∃ key, current.storageKey = some key ∧ phase = .superseding current.id key upload) :
      Acts unicode s c
        (({ s with issued := s.issued ++ [upload] } : State config).send
          (.issue current.id c.userId upload)).1 phase
  | verifies {current : Document} {key : StorageKey} {dto : CompleteUploadDto}
      {head : StoredObjectMetadata} {phase : Phase config}
      (hphase : c.phase = .verifying current key dto)
      (hnext : problemsOf config unicode current dto head = [] ∧ phase = .accepting current key head
        ∨ ∃ problems, phase = .rejecting current key problems) :
      Acts unicode s c { s with heads := s.heads ++ [(key, head)] } phase
  | accepts {current : Document} {key : StorageKey} {head : StoredObjectMetadata}
      (hphase : c.phase = .accepting current key head) :
      Acts unicode s c
        (s.send (.complete current.id c.userId key head.size
          ((storedType unicode head).or current.mimeType))).1
        (.confirming current.id head ((s.send (.complete current.id c.userId key head.size
          ((storedType unicode head).or current.mimeType))).2 = 1))
  | confirms {documentId : ℕ} {head : StoredObjectMetadata} {contentType : Option JsString}
      {phase : Phase config} (hphase : c.phase = .confirming documentId head true)
      (hplain : phase.plain = true) :
      Acts unicode s c
        (s.record (.UPLOAD_COMPLETED c.userId documentId head.size contentType)) phase
  | rejects {current : Document} {key : StorageKey} {problems : List Problem}
      (hphase : c.phase = .rejecting current key problems) :
      Acts unicode s c (s.send (.reject current.id c.userId key)).1
        (.discarding current key problems)

section

variable {s s' : State config} {c : Call config} {phase : Phase config}

/-- A step that only moves on to a plain phase. -/
theorem Call.Acts.goes (h : phase.plain = true) : c.Acts unicode s s phase
  := .plain rfl h

/-- A step that records an event, and moves on to a plain phase. -/
theorem Call.Acts.records {event : SecurityEvent} (hevent : event.completed = none)
    (h : phase.plain = true) :
  c.Acts unicode s (s.record event) phase
  := .plain (by simp [hevent]) h

/-- What the insertion of a document does. -/
theorem Call.create_cases {dto : CreateDocumentDto} {id : ℕ}
    (h : c.create s dto id = some (s', phase)) :
  (s.admits dto.folderId = false ∧ s' = s ∧ phase = .rejected)
  ∨ ∃ documents, s.admits dto.folderId = true
    ∧ s.documents.create (DocumentsService.createdDocument id c.userId dto.title
        (emptyToNull dto.description) dto.folderId s.now) = some documents
    ∧ s' = { s with documents }.record (.DOCUMENT_CREATED c.userId id dto.folderId)
    ∧ phase = .returned (.ok (.document (DocumentsService.createdDocument id c.userId dto.title
        (emptyToNull dto.description) dto.folderId s.now)))
  := by
  unfold create at h
  simp only [Bool.not_eq_true'] at h
  split at h
  · rename_i hadmits
    obtain ⟨rfl, rfl⟩ := Prod.mk.inj (Option.some.inj h)
    exact .inl ⟨hadmits, rfl, rfl⟩
  · rename_i hadmits
    obtain ⟨documents, hcreate, h⟩ := Option.bind_eq_some_iff.mp h
    obtain ⟨rfl, rfl⟩ := Prod.mk.inj (Option.some.inj h)
    exact .inr ⟨documents, eq_true_of_ne_false hadmits, hcreate, rfl, rfl⟩

theorem Call.create_acts {dto : CreateDocumentDto} {id : ℕ}
    (h : c.create s dto id = some (s', phase)) :
  c.Acts unicode s s' phase
  := by
  obtain ⟨-, rfl, rfl⟩ | ⟨documents, hadmits, hcreate, rfl, rfl⟩ := create_cases h
  · apply Acts.goes rfl
  · exact .creates hcreate hadmits rfl rfl

/-- The statement that saves fields changes one row, if any. -/
theorem State.count_save {id userId : ℕ} {data : DocumentData} {r : Document}
    (hr : r ∈ s.documents.rows)
    (hguard : ((DocumentWrite.save id userId data : DocumentWrite config).update s.now).guard r
      = true) :
  (s.send (.save id userId data)).2 = 1
  := by
  have hid : ∀ r : Document,
      ((DocumentWrite.save id userId data : DocumentWrite config).update s.now).guard r = true →
      r.id = id := by
    intro r hguard
    simp only [DocumentWrite.update, Bool.and_eq_true, decide_eq_true_eq] at hguard
    exact hguard.1.1
  apply (Table.count_eq_one_iff hid).mpr
  refine ⟨r, ?_, hguard⟩
  rw [← hid r hguard]
  apply Table.mem_rows_iff.mp hr

/-- What the statement that saves fields does. -/
theorem Call.save_cases {current : Document} {data : DocumentData}
    (h : c.save s current data = (s', phase)) :
  (s' = s ∧ phase = .rejected ∧ (data.title = some none
    ∨ (s.send (.save current.id c.userId data)).2 = 1 ∧ s.admits data.folderId.join = false))
  ∨ data.title ≠ some none ∧ s' = (s.send (.save current.id c.userId data)).1
    ∧ ((s.admits data.folderId.join = true ∧ phase = .saved current data)
      ∨ ((s.send (.save current.id c.userId data)).2 ≠ 1
        ∧ phase = .returned (.error documentNotFound)))
  := by
  unfold save at h
  simp only at h
  split at h
  · rename_i htitle
    obtain ⟨rfl, rfl⟩ := Prod.mk.inj h
    exact .inl ⟨rfl, rfl, .inl htitle⟩
  · rename_i htitle
    split at h
    · rename_i hcount
      split at h
      · rename_i hadmits
        obtain ⟨rfl, rfl⟩ := Prod.mk.inj h
        exact .inr ⟨htitle, rfl, .inl ⟨hadmits, rfl⟩⟩
      · rename_i hadmits
        obtain ⟨rfl, rfl⟩ := Prod.mk.inj h
        exact .inl ⟨rfl, rfl, .inr ⟨hcount, eq_false_of_ne_true hadmits⟩⟩
    · rename_i hcount
      obtain ⟨rfl, rfl⟩ := Prod.mk.inj h
      exact .inr ⟨htitle, rfl, .inr ⟨hcount, rfl⟩⟩

theorem Call.save_acts {current : Document} {data : DocumentData}
    (h : c.save s current data = (s', phase)) :
  c.Acts unicode s s' phase
  := by
  obtain ⟨rfl, rfl, -⟩ | ⟨-, rfl, ⟨hadmits, rfl⟩ | ⟨hcount, rfl⟩⟩ := save_cases h
  · apply Acts.goes rfl
  · exact .saves (fun _ _ _ => hadmits) rfl
  · refine .saves ?_ rfl
    intro r hr hguard
    exact absurd (State.count_save hr hguard) hcount

/-- What the statement that stores a new key does. -/
theorem Call.issue_cases {current : Document} {declaration : Declaration config} {random : ℕ}
    (h : c.issue s current declaration random = some (s', phase)) :
  ∃ upload : Upload config,
    upload = { declaration with storageKey := ⟨c.userId, current.id, random⟩ }
    ∧ upload.storageKey ∉ s.issued.map Upload.storageKey
    ∧ s' = ({ s with issued := s.issued ++ [upload] }.send (.issue current.id c.userId upload)).1
    ∧ (phase = .returned (.error changedConcurrently) ∨ phase = .presigning current.id upload
      ∨ ({ s with issued := s.issued ++ [upload] }.send (.issue current.id c.userId upload)).2 = 1
        ∧ ∃ key, current.storageKey = some key ∧ phase = .superseding current.id key upload)
  := by
  unfold issue at h
  simp only at h
  split at h
  · cases h
  · rename_i hfresh
    refine ⟨{ declaration with storageKey := ⟨c.userId, current.id, random⟩ }, rfl, hfresh, ?_⟩
    split at h
    · rename_i hcount
      split at h
      · rename_i key hkey
        obtain ⟨rfl, rfl⟩ := Prod.mk.inj (Option.some.inj h)
        have hstored := (Option.filter_eq_some_iff.mp hkey).1
        exact ⟨rfl, .inr (.inr ⟨hcount, key, hstored, rfl⟩)⟩
      · obtain ⟨rfl, rfl⟩ := Prod.mk.inj (Option.some.inj h)
        exact ⟨rfl, .inr (.inl rfl)⟩
    · obtain ⟨rfl, rfl⟩ := Prod.mk.inj (Option.some.inj h)
      exact ⟨rfl, .inl rfl⟩

theorem Call.issue_acts {current : Document} {declaration : Declaration config} {random : ℕ}
    (hphase : c.phase = .issuing current declaration)
    (h : c.issue s current declaration random = some (s', phase)) :
  c.Acts unicode s s' phase
  := by
  obtain ⟨upload, rfl, hfresh, rfl, rfl | rfl | hsuperseding⟩ := issue_cases h
  · exact .issues hphase ⟨random, rfl⟩ hfresh (.inl rfl)
  · exact .issues hphase ⟨random, rfl⟩ hfresh (.inl rfl)
  · exact .issues hphase ⟨random, rfl⟩ hfresh (.inr hsuperseding)

/-- What a call does with the answer to its HEAD request. -/
theorem Call.verify_cases {current : Document} {key : StorageKey} {dto : CompleteUploadDto}
    {answer : Option StoredObjectMetadata}
    (h : verify unicode s current key dto answer = (s', phase)) :
  (s' = s ∧ phase = .returned (.error uploadNotFound))
  ∨ ∃ head, s' = { s with heads := s.heads ++ [(key, head)] }
    ∧ (problemsOf config unicode current dto head = [] ∧ phase = .accepting current key head
      ∨ ∃ problems, phase = .rejecting current key problems)
  := by
  unfold verify at h
  split at h
  · obtain ⟨rfl, rfl⟩ := Prod.mk.inj h
    exact .inl ⟨rfl, rfl⟩
  · rename_i head
    simp only at h
    split at h
    · rename_i hproblems
      obtain ⟨rfl, rfl⟩ := Prod.mk.inj h
      exact .inr ⟨head, rfl, .inl ⟨hproblems, rfl⟩⟩
    · obtain ⟨rfl, rfl⟩ := Prod.mk.inj h
      exact .inr ⟨head, rfl, .inr ⟨_, rfl⟩⟩

theorem Call.verify_acts {current : Document} {key : StorageKey} {dto : CompleteUploadDto}
    {answer : Option StoredObjectMetadata} (hphase : c.phase = .verifying current key dto)
    (h : verify unicode s current key dto answer = (s', phase)) :
  c.Acts unicode s s' phase
  := by
  obtain ⟨rfl, rfl⟩ | ⟨head, rfl, hnext⟩ := verify_cases h
  · apply Acts.goes rfl
  · exact .verifies hphase hnext

theorem Call.confirm_acts {documentId : ℕ} {head : StoredObjectMetadata} {completed : Bool}
    (hphase : c.phase = .confirming documentId head completed)
    (h : c.confirm s documentId head completed = (s', phase)) :
  c.Acts unicode s s' phase
  := by
  unfold confirm at h
  split at h
  · obtain ⟨rfl, rfl⟩ := Prod.mk.inj h
    apply Acts.goes rfl
  · cases completed with
    | true =>
        obtain ⟨rfl, rfl⟩ := Prod.mk.inj h
        exact .confirms hphase rfl
    | false =>
        simp only [Bool.false_eq_true, if_false] at h
        split at h
        · obtain ⟨rfl, rfl⟩ := Prod.mk.inj h
          apply Acts.goes rfl
        · obtain ⟨rfl, rfl⟩ := Prod.mk.inj h
          apply Acts.goes rfl

theorem Call.discard_acts {objects : Table StoredObject.key} {current : Document}
    {problems : List Problem} (h : c.discard { s with objects } current problems = (s', phase)) :
  c.Acts unicode s s' phase
  := by
  obtain ⟨rfl, rfl⟩ := Prod.mk.inj h
  exact .plain (by simp [SecurityEvent.completed]) rfl

theorem Call.remove_acts {documentId deletedAt : ℕ}
    (h : c.remove s documentId deletedAt = (s', phase)) :
  c.Acts unicode s s' phase
  := by
  unfold remove at h
  simp only at h
  split at h
  · obtain ⟨rfl, rfl⟩ := Prod.mk.inj h
    exact .removes (by simp [State.send, SecurityEvent.completed]) rfl
  · obtain ⟨rfl, rfl⟩ := Prod.mk.inj h
    exact .removes rfl rfl

theorem Call.deny_acts {documentId : ℕ} (h : c.deny s documentId = (s', phase)) :
  c.Acts unicode s s' phase
  := by
  obtain ⟨rfl, rfl⟩ := Prod.mk.inj h
  split
  · exact .records rfl rfl
  · exact .goes rfl

theorem Call.denyFolder_acts {folderId : ℕ} (h : c.denyFolder s folderId = (s', phase)) :
  c.Acts unicode s s' phase
  := by
  obtain ⟨rfl, rfl⟩ := Prod.mk.inj h
  split
  · exact .records rfl rfl
  · exact .goes rfl

/-- A call that looks a document up goes on with a document it owns, or without one. -/
theorem Call.withOwned_acts {documentId : ℕ} {next : Document → Phase config}
    (hnext : ∀ current,
      DocumentsService.getOwned s.documents c.userId documentId = .ok current →
        c.Acts unicode s s (next current))
    (h : c.withOwned s documentId next = (s', phase)) :
  c.Acts unicode s s' phase
  := by
  unfold withOwned at h
  split at h
  · obtain ⟨rfl, rfl⟩ := Prod.mk.inj h
    apply Acts.goes rfl
  · rename_i current howned
    obtain ⟨rfl, rfl⟩ := Prod.mk.inj h
    apply hnext current howned

theorem Call.advance_acts {storage : StorageConfig}
    (h : c.advance storage unicode s = some (s', phase)) :
  c.Acts unicode s s' phase
  := by
  cases hphase : c.phase with
  | creatingIn dto folderId =>
      simp only [advance, hphase] at h
      obtain ⟨rfl, rfl⟩ := Prod.mk.inj (Option.some.inj h)
      apply Acts.goes
      split <;> rfl
  | updating documentId dto =>
      simp only [advance, hphase] at h
      apply withOwned_acts _ (Option.some.inj h)
      intro current _
      apply Acts.goes
      split
      · rfl
      · split <;> rfl
  | moving current data folderId =>
      simp only [advance, hphase] at h
      obtain ⟨rfl, rfl⟩ := Prod.mk.inj (Option.some.inj h)
      apply Acts.goes
      split <;> rfl
  | saving current data =>
      simp only [advance, hphase] at h
      apply save_acts (Option.some.inj h)
  | saved current data =>
      simp only [advance, hphase] at h
      split at h
      · obtain ⟨rfl, rfl⟩ := Prod.mk.inj (Option.some.inj h)
        apply Acts.goes rfl
      · obtain ⟨rfl, rfl⟩ := Prod.mk.inj (Option.some.inj h)
        apply Acts.records rfl rfl
  | requesting documentId declaration =>
      simp only [advance, hphase] at h
      apply withOwned_acts _ (Option.some.inj h)
      intro current howned
      split
      · exact .reads howned (.inl ⟨_, rfl⟩)
      · apply Acts.goes rfl
  | superseding documentId key upload =>
      simp only [advance, hphase] at h
      obtain ⟨rfl, rfl⟩ := Prod.mk.inj (Option.some.inj h)
      exact .plain rfl rfl
  | presigning documentId upload =>
      simp only [advance, hphase] at h
      obtain ⟨rfl, rfl⟩ := Prod.mk.inj (Option.some.inj h)
      apply Acts.goes rfl
  | presigned documentId upload url =>
      simp only [advance, hphase] at h
      split at h
      · obtain ⟨rfl, rfl⟩ := Prod.mk.inj (Option.some.inj h)
        apply Acts.goes rfl
      · obtain ⟨rfl, rfl⟩ := Prod.mk.inj (Option.some.inj h)
        exact .plain (by simp [SecurityEvent.completed]) rfl
  | completing documentId dto =>
      simp only [advance, hphase] at h
      apply withOwned_acts _ (Option.some.inj h)
      intro current howned
      split
      · apply Acts.goes rfl
      · split
        · rename_i hkey
          exact .reads howned (.inr ⟨_, _, hkey, rfl⟩)
        · apply Acts.goes rfl
  | accepting current key head =>
      simp only [advance, hphase] at h
      obtain ⟨rfl, rfl⟩ := Prod.mk.inj (Option.some.inj h)
      exact .accepts hphase
  | confirming documentId head completed =>
      simp only [advance, hphase] at h
      apply confirm_acts hphase (Option.some.inj h)
  | rejecting current key problems =>
      simp only [advance, hphase] at h
      obtain ⟨rfl, rfl⟩ := Prod.mk.inj (Option.some.inj h)
      exact .rejects hphase
  | discarding current key problems =>
      simp only [advance, hphase] at h
      apply discard_acts (Option.some.inj h)
  | removing documentId deletedAt =>
      simp only [advance, hphase] at h
      apply remove_acts (Option.some.inj h)
  | denying documentId =>
      simp only [advance, hphase] at h
      apply deny_acts (Option.some.inj h)
  | denyingFolder folderId =>
      simp only [advance, hphase] at h
      apply denyFolder_acts (Option.some.inj h)
  | creating _ | issuing _ _ | verifying _ _ _ | returned _ | rejected =>
      simp only [advance, hphase, reduceCtorEq] at h

theorem Call.throw_cases {storage : StorageConfig}
    (h : c.act storage unicode s .throw = some (s', phase)) :
  s' = s ∧ phase = .rejected
  := by
  simp only [act] at h
  split at h
  · cases h
  · cases h
  · obtain ⟨rfl, rfl⟩ := Prod.mk.inj (Option.some.inj h)
    exact ⟨rfl, rfl⟩

/-- Every step of a call is one of the kinds. -/
theorem Call.acts_of_act {storage : StorageConfig} {action : Action}
    (h : c.act storage unicode s action = some (s', phase)) :
  c.Acts unicode s s' phase
  := by
  cases action with
  | advance => apply advance_acts h
  | insert id =>
      simp only [act] at h
      split at h
      · apply create_acts h
      · cases h
  | issue random =>
      simp only [act] at h
      split at h
      · rename_i hphase
        apply issue_acts hphase h
      · cases h
  | head answer =>
      simp only [act] at h
      split at h
      · rename_i hphase
        apply verify_acts hphase (Option.some.inj h)
      · cases h
  | undeleted =>
      simp only [act] at h
      split at h
      · obtain ⟨rfl, rfl⟩ := Prod.mk.inj (Option.some.inj h)
        apply Acts.goes rfl
      · have hdiscard : c.discard { s with objects := s.objects } _ _ = _ := Option.some.inj h
        apply discard_acts hdiscard
      · cases h
  | throw =>
      obtain ⟨rfl, rfl⟩ := throw_cases h
      apply Acts.goes rfl

end

/-- A call starts in a plain phase. -/
theorem Operation.plain_start (now : ℕ) (operation : Operation) :
  (operation.start config unicode now).plain = true
  := by
  cases operation with
  | create dto => simp only [start]; split <;> rfl
  | update documentId dto => rfl
  | createUploadUrl documentId dto => simp only [start]; split <;> rfl
  | completeUpload documentId dto => rfl
  | remove documentId => rfl

/-- The steps of the system, by what they change. -/
inductive Moves (unicode : Unicode) (s : State config) : State config → Prop where
  /-- Time passes, a folder is written, or an object uploaded. -/
  | other {now : ℕ} {folders : Table Folder.id} {objects : Table StoredObject.key} :
      Moves unicode s { s with now, folders, objects }
  | calls {c : Call config} {calls : Table (Call.id : Call config → ℕ)}
      (hcreate : s.calls.create c = some calls) (hplain : c.phase.plain = true) :
      Moves unicode s { s with calls }
  | acts {c : Call config} {t : State config} {phase : Phase config}
      (hfind : s.calls.find c.id = some c) (hacts : c.Acts unicode s t phase) :
      Moves unicode s { t with calls := s.calls.put { c with phase } }
  | removesFolder {userId folderId : ℕ} {folders : Table Folder.id} {events : List SecurityEvent}
      (hevents : events.filterMap SecurityEvent.completed
        = s.events.filterMap SecurityEvent.completed) :
      Moves unicode s
        { ((s.send (.unfile folderId userId)).1.send (.unreference folderId)).1 with
          folders, events }
  | setsTotalPages {id totalPages : ℕ} :
      Moves unicode s (s.send (.setTotalPages id totalPages)).1

/-- Every step of the system is one of the kinds. -/
theorem moves_of_step {s s' : State config} {label : Label}
    (h : (system config storage unicode).step s label = some s') :
  Moves unicode s s'
  := by
  change step storage unicode s label = some s' at h
  cases label with
  | tick ms =>
      obtain rfl := Option.some.inj h
      exact .other
  | call id userId operation =>
      obtain ⟨calls, hcreate, h⟩ := Option.bind_eq_some_iff.mp h
      obtain rfl := Option.some.inj h
      exact .calls hcreate (Operation.plain_start s.now operation)
  | step callId action =>
      obtain ⟨c, hc, h⟩ := Option.bind_eq_some_iff.mp h
      obtain ⟨next, hact, h⟩ := Option.bind_eq_some_iff.mp h
      obtain rfl := Option.some.inj h
      obtain rfl := Table.key_of_find hc
      exact .acts hc (Call.acts_of_act hact)
  | put url contentType bytes etag =>
      simp only [step] at h
      split at h
      · obtain rfl := Option.some.inj h
        exact .other
      · cases h
  | writeFolder folder =>
      obtain rfl := Option.some.inj h
      exact .other
  | removeFolder userId folderId =>
      simp only [step, State.removeFolder] at h
      split at h
      · cases h
      · split at h
        · cases h
        · obtain rfl := Option.some.inj h
          exact .removesFolder (by simp [State.send, SecurityEvent.completed])
  | setTotalPages documentId totalPages =>
      obtain rfl := Option.some.inj h
      exact .setsTotalPages

end Documents

end DocuAI
