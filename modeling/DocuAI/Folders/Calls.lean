import DocuAI.Documents.Writes
import DocuAI.Folders.Service
import DocuAI.Library.Transition

/-!
# Calls on folders

The calls `create`, `update` and `remove` of the API.  Each runs in a transaction that first waits
for the advisory lock of its user and then sends its statements one at a time; the statements that
change rows are the last of their transaction, and are committed with it; the return of the call is
part of that step, and a call that throws has changed nothing.  Calls of different users interleave
freely, also with changes of documents.

The security events of the calls, which no call reads, are left out.
-/

namespace DocuAI

namespace Folders

inductive Operation where
  | create (dto : CreateFolderDto)
  | update (folderId : ℕ) (dto : UpdateFolderDto)
  | remove (folderId : ℕ)
  deriving DecidableEq

/-- What a call returns. -/
inductive Result where
  | folder (folder : Folder)
  | deletion (id movedDocuments promotedFolders : ℕ)
  deriving DecidableEq

/-- Where a call stands: the statement it makes next. -/
inductive Phase where
  /-- `lockUserHierarchy`. -/
  | waiting (operation : Operation)
  /-- `create`: the ancestors of the parent are queried. -/
  | creatingIn (name : JsString) (parentId : ℕ)
  | creating (name : JsString) (parentId : Option ℕ)
  /-- `update`: the folder is looked up. -/
  | updating (folderId : ℕ) (dto : UpdateFolderDto)
  /-- `assertValidMove`: the ancestors of the new parent are queried. -/
  | moving (current : Folder) (name : Option (Option JsString)) (newParentId : ℕ)
  /-- `assertValidMove`: the height of the folder is queried. -/
  | measuring (current : Folder) (name : Option (Option JsString)) (newParentId : Option ℕ)
      (parentDepth : ℕ)
  | saving (current : Folder) (data : FolderData)
  /-- `remove`: the folder is looked up. -/
  | removing (folderId : ℕ)
  | unfiling (folder : Folder)
  /-- `remove`: the folder is deleted, its documents having moved to the root. -/
  | deleting (folder : Folder) (unfiled : List ℕ)
  | returned (result : Except AppException Result)
  /-- A statement failed; the transaction is rolled back. -/
  | rejected
  deriving DecidableEq

/-- The call holds the lock of its user. -/
def Phase.locks : Phase → Bool
  | .waiting _ | .returned _ | .rejected => false
  | _ => true

/-- One call by a user. -/
structure Call where
  id : ℕ
  userId : ℕ
  phase : Phase
  deriving DecidableEq

/-- What the statements of the calls read and change. -/
structure Store where
  now : ℕ
  folders : Table Folder.id
  documents : Table Document.id

structure State extends Store where
  calls : Table Call.id

/-- What a call meets in a step, besides the state. -/
inductive Action where
  /-- The lock is granted. -/
  | lock
  /-- The next statement. -/
  | advance
  /-- The insertion of a folder, with its id. -/
  | insert (id : ℕ)
  /-- The statement fails, or the process dies. -/
  | throw

inductive Label where
  /-- Time passes. -/
  | tick (ms : ℕ)
  /-- A client calls. -/
  | call (id userId : ℕ) (operation : Operation)
  | step (callId : ℕ) (action : Action)
  /-- The documents are changed. -/
  | writeDocuments (documents : Table Document.id)

/-- The first phase of a call under the lock. -/
def Operation.start : Operation → Phase
  | .create dto =>
      match dto.parentId with
      | none => .creating dto.name none
      | some parentId => .creatingIn dto.name parentId
  | .update folderId dto => .updating folderId dto
  | .remove folderId => .removing folderId

/-- The call ends with an exception. -/
def fail (error : AppException) : Phase :=
  .returned (.error error)

/-- `update` of the folder it has looked up. -/
def change (current : Folder) (dto : UpdateFolderDto) : Phase :=
  match dto.parentId.filter (· ≠ current.parentId) with
  | some newParentId =>
      if newParentId = some current.id then fail folderSelfParent
      else
        match newParentId with
        | some parentId => .moving current dto.name parentId
        | none => .measuring current dto.name none 0
  | none =>
      let data : FolderData := { name := dto.name, parentId := none }
      if data = ⟨none, none⟩ then .returned (.ok (.folder current)) else .saving current data

section

variable (config : DocumentsConfig) (s : Store) (c : Call)

namespace Call

/-- `create`: the parent is one of the user's folders, and not too deep. -/
def place (name : JsString) (parentId : ℕ) : Phase :=
  let chain := FoldersService.ancestorChain s.folders c.userId FoldersService.RECURSION_LIMIT parentId
  if chain.length = 0 then fail folderNotFound
  else if MAX_FOLDER_DEPTH < chain.length + 1 then fail folderDepthExceeded
  else .creating name (some parentId)

/-- `create`: the insertion. -/
def create (name : JsString) (parentId : Option ℕ) (id : ℕ) : Option (Store × Phase) :=
  let folder := FoldersService.createdFolder id c.userId name parentId s.now
  if !FoldersService.admits s.folders parentId then some (s, .rejected)
  else do
    let folders ← s.folders.create folder
    some ({ s with folders }, .returned (.ok (.folder folder)))

/-- `assertValidMove`: the new parent is one of the user's folders, and not below the folder. -/
def move (current : Folder) (name : Option (Option JsString)) (newParentId : ℕ) : Phase :=
  let chain :=
    FoldersService.ancestorChain s.folders c.userId FoldersService.RECURSION_LIMIT newParentId
  if chain.length = 0 then fail folderNotFound
  else if current.id ∈ chain then fail folderCycle
  else .measuring current name (some newParentId) chain.length

/-- `assertValidMove`: the subtree fits below the new parent. -/
def measure (current : Folder) (name : Option (Option JsString)) (newParentId : Option ℕ)
    (parentDepth : ℕ) : Phase :=
  let height :=
    FoldersService.subtreeHeight s.folders c.userId FoldersService.RECURSION_LIMIT current.id
  if MAX_FOLDER_DEPTH < parentDepth + height then fail folderDepthExceeded
  else .saving current { name, parentId := some newParentId }

/-- `update`: the columns are set.  The name cannot be set to `null`. -/
def save (current : Folder) (data : FolderData) : Store × Phase :=
  if data.name = some none ∨ FoldersService.admits s.folders data.parentId.join = false then
    (s, .rejected)
  else
    let saved := s.folders.updateMany (FoldersService.save s.now current.id data)
    match saved.1.find current.id with
    | none => (s, .rejected)
    | some folder => ({ s with folders := saved.1 }, .returned (.ok (.folder folder)))

/-- `remove`: the documents move to the root.  Until the transaction is committed no one else sees
this, nor changes these documents. -/
def unfile (folder : Folder) : Phase :=
  let unfile : DocumentWrite config := .unfile folder.id c.userId
  .deleting folder ((s.documents.rows.filter (unfile.update s.now).guard).map Document.id)

/-- `remove`: the children move up to the parent, the folder is deleted, and the transaction is
committed.  The database keeps a folder that another one still has as its parent, and clears the
references of documents. -/
def delete (folder : Folder) (unfiled : List ℕ) : Store × Phase :=
  let unfile : DocumentWrite config := .unfile folder.id c.userId
  let documents := s.documents.updateMany
    ((unfile.update s.now).among fun document => document.id ∈ unfiled)
  let children := s.folders.updateMany (FoldersService.promote s.now folder c.userId)
  let deleted := children.1.rows.countP fun r => r.id = folder.id && r.userId = c.userId
  if deleted ≠ 1 then (s, fail folderNotFound)
  else if children.1.rows.any fun r => r.id ≠ folder.id && r.parentId = some folder.id then
    (s, .rejected)
  else
    let unreference : DocumentWrite config := .unreference folder.id
    ({ s with
        folders := children.1.erase folder.id
        documents := (documents.1.updateMany (unreference.update s.now)).1 },
      .returned (.ok (.deletion folder.id unfiled.length children.2)))

/-- A folder is looked up, and the call goes on with it. -/
def withOwned (folderId : ℕ) (next : Folder → Phase) : Phase :=
  match FoldersService.getOwned s.folders c.userId folderId with
  | .error error => fail error
  | .ok folder => next folder

/-- The next statement of a call. -/
def advance : Option (Store × Phase) :=
  match c.phase with
  | .creatingIn name parentId => some (s, c.place s name parentId)
  | .updating folderId dto => some (s, c.withOwned s folderId fun current => change current dto)
  | .moving current name newParentId => some (s, c.move s current name newParentId)
  | .measuring current name newParentId parentDepth =>
      some (s, c.measure s current name newParentId parentDepth)
  | .saving current data => some (save s current data)
  | .removing folderId => some (s, c.withOwned s folderId .unfiling)
  | .unfiling folder => some (s, c.unfile config s folder)
  | .deleting folder unfiled => some (c.delete config s folder unfiled)
  | _ => none

/-- One step of a call. -/
def act : Action → Option (Store × Phase)
  | .lock =>
      match c.phase with
      | .waiting operation => some (s, operation.start)
      | _ => none
  | .advance => c.advance config s
  | .insert id =>
      match c.phase with
      | .creating name parentId => c.create s name parentId id
      | _ => none
  | .throw =>
      match c.phase with
      | .returned _ | .rejected => none
      | _ => some (s, .rejected)

end Call

end

section

variable (config : DocumentsConfig) (hashtext : ℕ → ℕ)

/-- Whether the lock of a user is free.  Locks are taken on a hash of the user's id. -/
def lockFree (calls : Table Call.id) (userId : ℕ) : Prop :=
  ∀ c ∈ calls.rows, c.phase.locks = true → hashtext c.userId ≠ hashtext userId

instance (calls : Table Call.id) (userId : ℕ) : Decidable (lockFree hashtext calls userId) :=
  inferInstanceAs (Decidable (∀ c ∈ calls.rows, _ → _ ≠ _))

/-- A lock is granted only while it is free. -/
def granted (calls : Table Call.id) (userId : ℕ) : Action → Bool
  | .lock => lockFree hashtext calls userId
  | _ => true

/-- One step of the system. -/
def step (s : State) : Label → Option State
  | .tick ms => some { s with now := s.now + ms }
  | .call id userId operation => do
      let calls ← s.calls.create { id, userId, phase := .waiting operation }
      some { s with calls }
  | .step callId action => do
      let c ← s.calls.find callId
      if granted hashtext s.calls c.userId action then
        let next ← c.act config s.toStore action
        some { toStore := next.1, calls := s.calls.put { c with phase := next.2 } }
      else none
  | .writeDocuments documents => some { s with documents }

/-- The calls on folders.  Runs start without folders and calls. -/
def system : TransitionSystem State Label where
  init s := s.folders.rows = [] ∧ s.calls.rows = []
  step := step config hashtext

end

/-! ### What a step of a call can be -/

/-- The call has not ended, or has answered with a result or an error of the client. -/
def Phase.answers : Phase → Bool
  | .returned (.error error) => error.status.isClientError
  | .rejected => false
  | _ => true

/-- The steps of a call, by what they change, and by why a statement fails. -/
inductive Call.Acts (config : DocumentsConfig) (s : Store) (c : Call) (action : Action) :
    Store → Phase → Prop where
  | reads {phase : Phase} (hphase : phase.answers = true) : Acts config s c action s phase
  | throws (haction : action = .throw) : Acts config s c action s .rejected
  /-- The parent of a new folder is not there. -/
  | orphans {name : JsString} {parentId : Option ℕ} (hphase : c.phase = .creating name parentId)
      (hadmits : FoldersService.admits s.folders parentId = false) :
      Acts config s c action s .rejected
  | creates {name : JsString} {parentId : Option ℕ} {id : ℕ} {folders : Table Folder.id}
      (hphase : c.phase = .creating name parentId) (haction : action = .insert id)
      (hcreate : s.folders.create (FoldersService.createdFolder id c.userId name parentId s.now)
        = some folders) :
      Acts config s c action { s with folders }
        (.returned (.ok (.folder (FoldersService.createdFolder id c.userId name parentId s.now))))
  | refuses {current : Folder} {data : FolderData} (hphase : c.phase = .saving current data)
      (hdata : data.name = some none ∨ FoldersService.admits s.folders data.parentId.join = false
        ∨ s.folders.find current.id = none) :
      Acts config s c action s .rejected
  | saves {current folder : Folder} {data : FolderData} (hphase : c.phase = .saving current data) :
      Acts config s c action
        { s with
          folders := (s.folders.updateMany (FoldersService.save s.now current.id data)).1 }
        (.returned (.ok (.folder folder)))
  /-- Another folder still has the folder as its parent. -/
  | keeps {folder : Folder} {unfiled : List ℕ} (hphase : c.phase = .deleting folder unfiled)
      (hchild : ∃ r ∈ (s.folders.updateMany (FoldersService.promote s.now folder c.userId)).1.rows,
        r.id ≠ folder.id ∧ r.parentId = some folder.id) :
      Acts config s c action s .rejected
  | deletes {folder : Folder} {unfiled : List ℕ} {promotedFolders : ℕ}
      (hphase : c.phase = .deleting folder unfiled) :
      Acts config s c action
        { s with
          folders :=
            (s.folders.updateMany (FoldersService.promote s.now folder c.userId)).1.erase folder.id
          documents :=
            ((s.documents.updateMany
                (((DocumentWrite.unfile folder.id c.userId : DocumentWrite config).update s.now).among
                  fun document => document.id ∈ unfiled)).1.updateMany
              ((DocumentWrite.unreference folder.id : DocumentWrite config).update s.now)).1 }
        (.returned (.ok (.deletion folder.id unfiled.length promotedFolders)))

section

variable {config : DocumentsConfig} {s s' : Store} {c : Call} {phase : Phase} {action : Action}

theorem Operation.answers_start (operation : Operation) :
  operation.start.answers = true
  := by
  cases operation with
  | create dto => simp only [start]; split <;> rfl
  | update | remove => rfl

theorem answers_change (current : Folder) (dto : UpdateFolderDto) :
  (change current dto).answers = true
  := by
  simp only [change, fail]
  split
  · split
    · rfl
    · split <;> rfl
  · split <;> rfl

theorem Call.answers_withOwned {next : Folder → Phase} (folderId : ℕ)
    (hnext : ∀ folder, (next folder).answers = true) :
  (c.withOwned s folderId next).answers = true
  := by
  unfold withOwned FoldersService.getOwned
  split
  · rename_i hfind
    split at hfind
    · cases hfind
    · obtain rfl := Except.error.inj hfind
      rfl
  · apply hnext

/-- What the insertion of a folder does. -/
theorem Call.create_cases {name : JsString} {parentId : Option ℕ} {id : ℕ}
    (h : c.create s name parentId id = some (s', phase)) :
  (FoldersService.admits s.folders parentId = false ∧ s' = s ∧ phase = .rejected)
  ∨ ∃ folders, FoldersService.admits s.folders parentId = true
    ∧ s.folders.create (FoldersService.createdFolder id c.userId name parentId s.now)
      = some folders
    ∧ s' = { s with folders }
    ∧ phase = .returned (.ok (.folder
        (FoldersService.createdFolder id c.userId name parentId s.now)))
  := by
  unfold create at h
  simp only [Bool.not_eq_true'] at h
  split at h
  · rename_i hadmits
    obtain ⟨rfl, rfl⟩ := Prod.mk.inj (Option.some.inj h)
    exact .inl ⟨hadmits, rfl, rfl⟩
  · rename_i hadmits
    obtain ⟨folders, hcreate, h⟩ := Option.bind_eq_some_iff.mp h
    obtain ⟨rfl, rfl⟩ := Prod.mk.inj (Option.some.inj h)
    exact .inr ⟨folders, eq_true_of_ne_false hadmits, hcreate, rfl, rfl⟩

theorem Call.create_acts {name : JsString} {parentId : Option ℕ} {id : ℕ}
    (hphase : c.phase = .creating name parentId) (h : c.create s name parentId id = some (s', phase)) :
  c.Acts config s (.insert id) s' phase
  := by
  obtain ⟨hadmits, rfl, rfl⟩ | ⟨folders, -, hcreate, rfl, rfl⟩ := create_cases h
  · exact .orphans hphase hadmits
  · exact .creates hphase rfl hcreate

theorem Call.save_acts {current : Folder} {data : FolderData}
    (hphase : c.phase = .saving current data) (h : save s current data = (s', phase)) :
  c.Acts config s action s' phase
  := by
  unfold save at h
  simp only at h
  split at h
  · rename_i hdata
    obtain ⟨rfl, rfl⟩ := Prod.mk.inj h
    apply Acts.refuses hphase
    rcases hdata with hname | hparent
    · exact .inl hname
    · exact .inr (.inl hparent)
  · split at h
    · rename_i hnone
      obtain ⟨rfl, rfl⟩ := Prod.mk.inj h
      rw [Table.find_updateMany, Option.map_eq_none_iff] at hnone
      exact .refuses hphase (.inr (.inr hnone))
    · obtain ⟨rfl, rfl⟩ := Prod.mk.inj h
      exact .saves hphase

theorem Call.delete_acts {folder : Folder} {unfiled : List ℕ}
    (hphase : c.phase = .deleting folder unfiled)
    (h : c.delete config s folder unfiled = (s', phase)) :
  c.Acts config s action s' phase
  := by
  unfold delete at h
  simp only at h
  split at h
  · obtain ⟨rfl, rfl⟩ := Prod.mk.inj h
    exact .reads rfl
  · split at h
    · rename_i hchild
      obtain ⟨rfl, rfl⟩ := Prod.mk.inj h
      apply Acts.keeps hphase
      obtain ⟨r, hr, hsome⟩ := List.any_eq_true.mp hchild
      simp only [Bool.and_eq_true, decide_eq_true_eq] at hsome
      exact ⟨r, hr, hsome⟩
    · obtain ⟨rfl, rfl⟩ := Prod.mk.inj h
      exact .deletes hphase

theorem Call.throw_cases (h : c.act config s .throw = some (s', phase)) :
  s' = s ∧ phase = .rejected
  := by
  simp only [act] at h
  split at h
  · cases h
  · cases h
  · obtain ⟨rfl, rfl⟩ := Prod.mk.inj (Option.some.inj h)
    exact ⟨rfl, rfl⟩

/-- Every step of a call is one of these. -/
theorem Call.acts_of_act (h : c.act config s action = some (s', phase)) :
  c.Acts config s action s' phase
  := by
  have hreads : ∀ next : Phase, next.answers = true → some (s, next) = some (s', phase) →
      c.Acts config s action s' phase := by
    intro next hnext heq
    obtain ⟨rfl, rfl⟩ := Prod.mk.inj (Option.some.inj heq)
    exact .reads hnext
  cases action with
  | lock =>
      simp only [act] at h
      split at h
      · apply hreads _ (Operation.answers_start _) h
      · cases h
  | throw =>
      obtain ⟨rfl, rfl⟩ := throw_cases h
      exact .throws rfl
  | insert id =>
      simp only [act] at h
      split at h
      · rename_i hphase
        apply create_acts hphase h
      · cases h
  | advance =>
      simp only [act, advance] at h
      split at h
      · apply hreads _ _ h
        unfold place fail
        simp only
        split
        · rfl
        · split <;> rfl
      · apply hreads _ _ h
        apply answers_withOwned
        intro current
        apply answers_change
      · apply hreads _ _ h
        unfold move fail
        simp only
        split
        · rfl
        · split <;> rfl
      · apply hreads _ _ h
        unfold measure fail
        simp only
        split <;> rfl
      · rename_i hphase
        apply save_acts hphase (Option.some.inj h)
      · apply hreads _ _ h
        apply answers_withOwned
        intro folder
        rfl
      · rename_i folder hphase
        apply hreads (c.unfile config s folder) rfl h
      · rename_i hphase
        apply delete_acts hphase (Option.some.inj h)
      · cases h

end

end Folders

end DocuAI
