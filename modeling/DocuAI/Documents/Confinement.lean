import DocuAI.Documents.Calls
import DocuAI.Library.Restrict

/-!
# Calls on documents stay with their user

A call changes rows of its user only, and deletes objects under keys of its user only
(`Call.safe_act`).  What it does is determined by the rows of its user (`Call.act_only`): the queries
that are not restricted to them, whether a folder is there to refer to and whether a document is
another user's, decide nothing else than what is recorded.

That the folder a row is about to refer to is the user's, as long as it is there, is what a call
has seen before (`Phase.Owned`).
-/

namespace DocuAI

/-- The folder, as long as it is there, is the user's. -/
def HeldBy (folders : Table Folder.id) (userId folderId : ℕ) : Prop :=
  ∀ folder, folders.find folderId = some folder → folder.userId = userId

/-- What a document refers to is its user's. -/
structure Document.Owned (holds : ℕ → ℕ → Prop) (document : Document) : Prop where
  folder : ∀ folderId, document.folderId = some folderId → holds document.userId folderId
  key : ∀ key, document.storageKey = some key → key.userId = document.userId

theorem Document.Owned.mono {holds holds' : ℕ → ℕ → Prop} {document : Document}
    (h : document.Owned holds) (hholds : ∀ userId folderId, holds userId folderId →
      holds' userId folderId) :
  document.Owned holds'
  := ⟨fun folderId hfolder => hholds _ _ (h.folder folderId hfolder), h.key⟩

/-- A document that keeps its user and its key, and is put in no other folder, refers to nothing
new. -/
theorem Document.Owned.of_same {holds : ℕ → ℕ → Prop} {document document' : Document}
    (h : document.Owned holds) (huser : document'.userId = document.userId)
    (hfolder : document'.folderId = document.folderId ∨ document'.folderId = none)
    (hkey : document'.storageKey = document.storageKey) :
  document'.Owned holds
  := by
  constructor
  · intro folderId hsome
    rw [huser]
    rcases hfolder with hsame | hnone
    · apply h.folder folderId (hsame ▸ hsome)
    · rw [hnone] at hsome
      cases hsome
  · rw [huser, hkey]
    apply h.key

/-! ### Writes -/

namespace DocumentWrite

variable {config : DocumentsConfig}

/-- No write changes the user of a document. -/
theorem userId_apply (w : DocumentWrite config) (now : ℕ) (document : Document) :
  ((w.update now).apply document).userId = document.userId
  := by
  unfold Update.apply
  split
  · cases w <;> rfl
  · rfl

theorem isOf_apply (w : DocumentWrite config) (now userId : ℕ) (document : Document) :
  ((w.update now).apply document).isOf userId = document.isOf userId
  := by
  rw [Document.isOf, Document.isOf, userId_apply]

/-- The write admits documents of the user only, and what they refer to after it is the user's. -/
structure IsOf (holds : ℕ → ℕ → Prop) (userId : ℕ) (w : DocumentWrite config) : Prop where
  guard : ∀ now document, (w.update now).guard document = true → document.userId = userId
  owned : ∀ now document, document.Owned holds → document.userId = userId →
    ((w.update now).data document).Owned holds

variable {holds : ℕ → ℕ → Prop} {userId : ℕ}

theorem isOf_save {id : ℕ} {data : DocumentData}
    (hdata : ∀ folderId ∈ data.folderId.join, holds userId folderId) :
  IsOf holds userId (.save id userId data : DocumentWrite config)
  := by
  constructor
  · intro now document hguard
    simp only [update, Bool.and_eq_true, decide_eq_true_eq] at hguard
    exact hguard.1.2
  · intro now document howned huser
    constructor
    · intro folderId hfolder
      cases hset : data.folderId with
      | none =>
          simp only [update, hset, Option.getD_none] at hfolder
          apply howned.folder folderId hfolder
      | some set =>
          simp only [update, hset, Option.getD_some] at hfolder
          change holds document.userId folderId
          rw [huser]
          apply hdata
          rw [hset, hfolder]
          rfl
    · apply howned.key

theorem isOf_issue {id : ℕ} {upload : Upload config} (hkey : upload.storageKey.userId = userId) :
  IsOf holds userId (.issue id userId upload)
  := by
  constructor
  · intro now document hguard
    simp only [update, Bool.and_eq_true, decide_eq_true_eq] at hguard
    exact hguard.1.1.2
  · intro now document howned huser
    constructor
    · apply howned.folder
    · intro key hsome
      obtain rfl := Option.some.inj hsome
      exact hkey.trans huser.symm

theorem isOf_complete {id fileSize : ℕ} {storageKey : StorageKey} {mimeType : Option JsString} :
  IsOf holds userId (.complete id userId storageKey fileSize mimeType : DocumentWrite config)
  := by
  constructor
  · intro now document hguard
    simp only [update, Bool.and_eq_true, decide_eq_true_eq] at hguard
    exact hguard.1.1.1.2
  · intro now document howned huser
    exact howned.of_same rfl (.inl rfl) rfl

theorem isOf_reject {id : ℕ} {storageKey : StorageKey} :
  IsOf holds userId (.reject id userId storageKey : DocumentWrite config)
  := by
  constructor
  · intro now document hguard
    simp only [update, Bool.and_eq_true, decide_eq_true_eq] at hguard
    exact hguard.1.1.2
  · intro now document howned huser
    exact howned.of_same rfl (.inl rfl) rfl

theorem isOf_remove {id deletedAt : ℕ} :
  IsOf holds userId (.remove id userId deletedAt : DocumentWrite config)
  := by
  constructor
  · intro now document hguard
    simp only [update, Bool.and_eq_true, decide_eq_true_eq] at hguard
    exact hguard.1.2
  · intro now document howned huser
    exact howned.of_same rfl (.inl rfl) rfl

end DocumentWrite

/-! ### What a change of documents leaves alone -/

/-- A change of documents by a user: those of other users stay as they are, every document stays
its user's, and refers to what is that user's. -/
structure DocumentsKept (holds : ℕ → ℕ → Prop) (userId : ℕ)
    (documents documents' : Table Document.id) : Prop where
  others : ∀ other ≠ userId, documents'.restrict (Document.isOf other)
    = documents.restrict (Document.isOf other)
  owners : ∀ id document, documents.find id = some document →
    ∃ document', documents'.find id = some document' ∧ document'.userId = document.userId
  owned : ∀ document ∈ documents'.rows, document.Owned holds

namespace DocumentsKept

variable {holds : ℕ → ℕ → Prop} {userId : ℕ} {documents documents' : Table Document.id}

theorem refl (h : ∀ document ∈ documents.rows, document.Owned holds) :
  DocumentsKept holds userId documents documents
  := ⟨fun _ _ => rfl, fun _ document hdocument => ⟨document, hdocument, rfl⟩, h⟩

/-- An update that changes no user, and admits documents of the user only. -/
theorem updateMany {u : Update Document.id}
    (h : ∀ document ∈ documents.rows, document.Owned holds)
    (huser : ∀ document, (u.apply document).userId = document.userId)
    (hguard : ∀ document ∈ documents.rows, u.guard document = true → document.userId = userId)
    (howned : ∀ document, document.Owned holds → document.userId = userId →
      (u.data document).Owned holds) :
  DocumentsKept holds userId documents (documents.updateMany u).1
  := by
  constructor
  · intro other hne
    apply Table.restrict_updateMany_of_not
    · intro document
      rw [Document.isOf, Document.isOf, huser]
    · intro document hdocument hother
      by_contra hadmits
      apply hne
      rw [← of_decide_eq_true hother]
      apply hguard document hdocument (Bool.not_eq_false _ ▸ hadmits)
  · intro id document hfind
    use u.apply document
    rw [Table.find_updateMany, hfind]
    exact ⟨rfl, huser document⟩
  · intro document hdocument
    rw [Table.rows_updateMany] at hdocument
    obtain ⟨old, hold, rfl⟩ := List.mem_map.mp hdocument
    cases hadmits : u.guard old with
    | false =>
        rw [u.apply_of_not_guard hadmits]
        apply h old hold
    | true =>
        rw [u.apply_of_guard hadmits]
        apply howned old (h old hold) (hguard old hold hadmits)

theorem write {config : DocumentsConfig} {w : DocumentWrite config} {now : ℕ}
    (h : ∀ document ∈ documents.rows, document.Owned holds) (hw : w.IsOf holds userId) :
  DocumentsKept holds userId documents (documents.updateMany (w.update now)).1
  := updateMany h (w.userId_apply now) (fun document _ => hw.guard now document) (hw.owned now)

theorem create {document : Document} (h : ∀ document ∈ documents.rows, document.Owned holds)
    (hcreate : documents.create document = some documents') (huser : document.userId = userId)
    (howned : document.Owned holds) :
  DocumentsKept holds userId documents documents'
  := by
  constructor
  · intro other hne
    apply Table.restrict_create_of_not hcreate
    simpa [Document.isOf, huser] using Ne.symm hne
  · intro id old hfind
    use old
    rw [Table.find_create hcreate]
    split
    · rename_i hid
      rw [hid, Table.find_of_create hcreate] at hfind
      cases hfind
    · exact ⟨hfind, rfl⟩
  · intro new hnew
    rw [Table.rows_of_create hcreate, List.mem_append, List.mem_singleton] at hnew
    rcases hnew with hnew | rfl
    · apply h new hnew
    · apply howned

end DocumentsKept

namespace Documents

variable {config : DocumentsConfig} {storage : StorageConfig} {unicode : Unicode}

/-! ### What a call knows -/

/-- What a phase of the call of a user refers to is the user's. -/
def Phase.Owned (holds : ℕ → ℕ → Prop) (userId : ℕ) : Phase config → Prop
  | .creatingIn dto folderId => dto.folderId = some folderId
  | .creating dto => ∀ folderId ∈ dto.folderId, holds userId folderId
  | .moving _ data folderId => data.folderId.join = some folderId
  | .saving _ data => ∀ folderId ∈ data.folderId.join, holds userId folderId
  | .issuing current _ => ∀ key ∈ current.storageKey, key.userId = userId
  | .superseding _ key _ | .verifying _ key _ | .rejecting _ key _ | .discarding _ key _ =>
      key.userId = userId
  | _ => True

theorem Phase.Owned.mono {holds holds' : ℕ → ℕ → Prop} {userId : ℕ} {phase : Phase config}
    (h : phase.Owned holds userId) (hholds : ∀ userId folderId, holds userId folderId →
      holds' userId folderId) :
  phase.Owned holds' userId
  := by
  cases phase with
  | creating dto => exact fun folderId hfolder => hholds _ _ (h folderId hfolder)
  | saving current data => exact fun folderId hfolder => hholds _ _ (h folderId hfolder)
  | _ => apply h

theorem Operation.owned_start (holds : ℕ → ℕ → Prop) (userId now : ℕ) (operation : Operation) :
  (operation.start config unicode now).Owned holds userId
  := by
  cases operation with
  | create dto =>
      simp only [start]
      split
      · rename_i hnone
        intro folderId hfolder
        rw [hnone] at hfolder
        cases hfolder
      · rename_i hsome
        apply hsome
  | createUploadUrl documentId dto =>
      simp only [start]
      split <;> trivial
  | _ => trivial

/-- A step of a call changes documents and objects of its user only, and no folder. -/
structure Call.Safe (holds : ℕ → ℕ → Prop) (c : Call config) (s s' : State config)
    (phase : Phase config) : Prop where
  folders : s'.folders = s.folders
  documents : DocumentsKept holds c.userId s.documents s'.documents
  objects : ∀ other ≠ c.userId, s'.objects.restrict (StoredObject.isOf other)
    = s.objects.restrict (StoredObject.isOf other)
  phase : phase.Owned holds c.userId

section

variable {holds : ℕ → ℕ → Prop} {s s' : State config} {c : Call config} {phase : Phase config}

/-- A step that writes nothing. -/
theorem Call.Safe.goes (hrows : ∀ document ∈ s.documents.rows, document.Owned holds)
    (hdocuments : s'.documents = s.documents) (hfolders : s'.folders = s.folders)
    (hobjects : s'.objects = s.objects) (hphase : phase.Owned holds c.userId) :
  c.Safe holds s s' phase
  := by
  refine ⟨hfolders, ?_, ?_, hphase⟩
  · rw [hdocuments]
    apply DocumentsKept.refl hrows
  · intro other _
    rw [hobjects]

/-- A step that sends a write of the user. -/
theorem Call.Safe.sends (hrows : ∀ document ∈ s.documents.rows, document.Owned holds)
    {w : DocumentWrite config} (hw : w.IsOf holds c.userId)
    (hdocuments : s'.documents = (s.send w).1.documents) (hfolders : s'.folders = s.folders)
    (hobjects : s'.objects = s.objects) (hphase : phase.Owned holds c.userId) :
  c.Safe holds s s' phase
  := by
  refine ⟨hfolders, ?_, ?_, hphase⟩
  · rw [hdocuments]
    apply DocumentsKept.write hrows hw
  · intro other _
    rw [hobjects]

/-- A step that deletes the object under a key of the user. -/
theorem Call.Safe.deletes (hrows : ∀ document ∈ s.documents.rows, document.Owned holds)
    {key : StorageKey} (hkey : key.userId = c.userId) (hdocuments : s'.documents = s.documents)
    (hfolders : s'.folders = s.folders) (hobjects : s'.objects = s.objects.erase key)
    (hphase : phase.Owned holds c.userId) :
  c.Safe holds s s' phase
  := by
  refine ⟨hfolders, ?_, ?_, hphase⟩
  · rw [hdocuments]
    apply DocumentsKept.refl hrows
  · intro other hne
    rw [hobjects]
    apply Table.restrict_erase_of_not
    rintro object _ rfl
    simpa [StoredObject.isOf, hkey] using Ne.symm hne

/-- A folder that is there is held by its user. -/
theorem State.holds_of_ownsFolder
    (hfolders : ∀ folderId folder, s.folders.find folderId = some folder →
      holds folder.userId folderId)
    {userId folderId : ℕ} (h : s.ownsFolder userId folderId = true) :
  holds userId folderId
  := by
  obtain ⟨folder, hfind, huser⟩ := (Option.any_eq_true _ _).mp h
  rw [← of_decide_eq_true huser]
  apply hfolders folderId folder hfind

variable (hrows : ∀ document ∈ s.documents.rows, document.Owned holds)

include hrows

theorem Call.safe_withOwned {documentId : ℕ} {next : Document → Phase config}
    (hnext : ∀ current ∈ s.documents.rows, current.userId = c.userId →
      (next current).Owned holds c.userId)
    (h : c.withOwned s documentId next = (s', phase)) :
  c.Safe holds s s' phase
  := by
  unfold withOwned at h
  split at h
  · obtain ⟨rfl, rfl⟩ := Prod.mk.inj h
    exact .goes hrows rfl rfl rfl trivial
  · rename_i current howned
    obtain ⟨rfl, rfl⟩ := Prod.mk.inj h
    obtain ⟨hfind, huser, -⟩ := DocumentsService.getOwned_eq_ok_iff.mp howned
    exact .goes hrows rfl rfl rfl (hnext current (Table.mem_of_find hfind) huser)

theorem Call.safe_create {dto : CreateDocumentDto} {id : ℕ}
    (hphase : (Phase.creating dto : Phase config).Owned holds c.userId)
    (h : c.create s dto id = some (s', phase)) :
  c.Safe holds s s' phase
  := by
  obtain ⟨-, rfl, rfl⟩ | ⟨documents, -, hcreate, rfl, rfl⟩ := create_cases h
  · exact .goes hrows rfl rfl rfl trivial
  · refine ⟨rfl, ?_, fun _ _ => rfl, trivial⟩
    apply DocumentsKept.create hrows hcreate rfl
    exact ⟨fun folderId hfolder => hphase folderId hfolder, nofun⟩

theorem Call.safe_save {current : Document} {data : DocumentData}
    (hphase : (Phase.saving current data : Phase config).Owned holds c.userId)
    (h : c.save s current data = (s', phase)) :
  c.Safe holds s s' phase
  := by
  obtain ⟨rfl, rfl, -⟩ | ⟨-, rfl, ⟨-, rfl⟩ | ⟨-, rfl⟩⟩ := save_cases h
  · exact .goes hrows rfl rfl rfl trivial
  · exact .sends hrows (DocumentWrite.isOf_save hphase) rfl rfl rfl trivial
  · exact .sends hrows (DocumentWrite.isOf_save hphase) rfl rfl rfl trivial

theorem Call.safe_issue {current : Document} {declaration : Declaration config} {random : ℕ}
    (hphase : (Phase.issuing current declaration).Owned holds c.userId)
    (h : c.issue s current declaration random = some (s', phase)) :
  c.Safe holds s s' phase
  := by
  obtain ⟨upload, rfl, -, rfl, rfl | rfl | ⟨-, key, hstored, rfl⟩⟩ := issue_cases h
  · exact .sends hrows (DocumentWrite.isOf_issue rfl) rfl rfl rfl trivial
  · exact .sends hrows (DocumentWrite.isOf_issue rfl) rfl rfl rfl trivial
  · exact .sends hrows (DocumentWrite.isOf_issue rfl) rfl rfl rfl (hphase key hstored)

theorem Call.safe_verify {current : Document} {key : StorageKey} {dto : CompleteUploadDto}
    {answer : Option StoredObjectMetadata} (hkey : key.userId = c.userId)
    (h : verify unicode s current key dto answer = (s', phase)) :
  c.Safe holds s s' phase
  := by
  obtain ⟨rfl, rfl⟩ | ⟨head, rfl, ⟨-, rfl⟩ | ⟨problems, rfl⟩⟩ := verify_cases h
  · exact .goes hrows rfl rfl rfl trivial
  · exact .goes hrows rfl rfl rfl trivial
  · exact .goes hrows rfl rfl rfl hkey

theorem Call.safe_confirm {documentId : ℕ} {head : StoredObjectMetadata} {completed : Bool}
    (h : c.confirm s documentId head completed = (s', phase)) :
  c.Safe holds s s' phase
  := by
  unfold confirm at h
  split at h
  · obtain ⟨rfl, rfl⟩ := Prod.mk.inj h
    exact .goes hrows rfl rfl rfl trivial
  · split at h
    · obtain ⟨rfl, rfl⟩ := Prod.mk.inj h
      exact .goes hrows rfl rfl rfl trivial
    · split at h
      · obtain ⟨rfl, rfl⟩ := Prod.mk.inj h
        exact .goes hrows rfl rfl rfl trivial
      · obtain ⟨rfl, rfl⟩ := Prod.mk.inj h
        exact .goes hrows rfl rfl rfl trivial

theorem Call.safe_remove {documentId deletedAt : ℕ}
    (h : c.remove s documentId deletedAt = (s', phase)) :
  c.Safe holds s s' phase
  := by
  unfold remove at h
  simp only at h
  split at h
  · obtain ⟨rfl, rfl⟩ := Prod.mk.inj h
    exact .sends hrows DocumentWrite.isOf_remove rfl rfl rfl trivial
  · obtain ⟨rfl, rfl⟩ := Prod.mk.inj h
    exact .sends hrows DocumentWrite.isOf_remove rfl rfl rfl trivial

theorem Call.safe_advance
    (hfolders : ∀ folderId folder, s.folders.find folderId = some folder →
      holds folder.userId folderId)
    (howned : c.phase.Owned holds c.userId) (h : c.advance storage unicode s = some (s', phase)) :
  c.Safe holds s s' phase
  := by
  -- Most statements only read, and go on to a phase that refers to nothing.
  have hgoes : ∀ {t : State config} {next : Phase config}, some (t, next) = some (s', phase) →
      t.documents = s.documents → t.folders = s.folders → t.objects = s.objects →
      next.Owned holds c.userId → c.Safe holds s s' phase := by
    intro t next heq hdocuments hfolders' hobjects hnext
    obtain ⟨rfl, rfl⟩ := Prod.mk.inj (Option.some.inj heq)
    exact .goes hrows hdocuments hfolders' hobjects hnext
  cases hphase : c.phase with
  | creatingIn dto folderId =>
      simp only [advance, hphase] at h
      rw [hphase] at howned
      apply hgoes h rfl rfl rfl
      split
      · rename_i howns
        intro id hid
        obtain rfl := Option.some.inj (howned.symm.trans hid)
        apply State.holds_of_ownsFolder hfolders howns
      · trivial
  | updating documentId dto =>
      simp only [advance, hphase] at h
      apply safe_withOwned hrows _ (Option.some.inj h)
      intro current _ _
      split
      · rename_i hfolder
        apply hfolder
      · rename_i hnone
        split
        · trivial
        · intro folderId hfolder
          rw [show (dataOf dto).folderId = dto.folderId from rfl, hnone] at hfolder
          cases hfolder
  | moving current data folderId =>
      simp only [advance, hphase] at h
      rw [hphase] at howned
      apply hgoes h rfl rfl rfl
      split
      · rename_i howns
        intro id hid
        obtain rfl := Option.some.inj (howned.symm.trans hid)
        apply State.holds_of_ownsFolder hfolders howns
      · trivial
  | saving current data =>
      simp only [advance, hphase] at h
      rw [hphase] at howned
      apply safe_save hrows howned (Option.some.inj h)
  | saved current data =>
      simp only [advance, hphase] at h
      split at h
      · exact hgoes h rfl rfl rfl trivial
      · exact hgoes h rfl rfl rfl trivial
  | requesting documentId declaration =>
      simp only [advance, hphase] at h
      apply safe_withOwned hrows _ (Option.some.inj h)
      intro current hcurrent huser
      split
      · intro key hkey
        rw [← huser]
        apply (hrows current hcurrent).key key hkey
      · trivial
  | superseding documentId key upload =>
      simp only [advance, hphase] at h
      rw [hphase] at howned
      obtain ⟨rfl, rfl⟩ := Prod.mk.inj (Option.some.inj h)
      exact .deletes hrows howned rfl rfl rfl trivial
  | presigning documentId upload =>
      simp only [advance, hphase] at h
      exact hgoes h rfl rfl rfl trivial
  | presigned documentId upload url =>
      simp only [advance, hphase] at h
      split at h
      · exact hgoes h rfl rfl rfl trivial
      · exact hgoes h rfl rfl rfl trivial
  | completing documentId dto =>
      simp only [advance, hphase] at h
      apply safe_withOwned hrows _ (Option.some.inj h)
      intro current hcurrent huser
      split
      · trivial
      · split
        · rename_i key _ hkey
          change key.userId = c.userId
          rw [← huser]
          apply (hrows current hcurrent).key key hkey
        · trivial
  | accepting current key head =>
      simp only [advance, hphase] at h
      obtain ⟨rfl, rfl⟩ := Prod.mk.inj (Option.some.inj h)
      exact .sends hrows DocumentWrite.isOf_complete rfl rfl rfl trivial
  | confirming documentId head completed =>
      simp only [advance, hphase] at h
      apply safe_confirm hrows (Option.some.inj h)
  | rejecting current key problems =>
      simp only [advance, hphase] at h
      rw [hphase] at howned
      obtain ⟨rfl, rfl⟩ := Prod.mk.inj (Option.some.inj h)
      exact .sends hrows DocumentWrite.isOf_reject rfl rfl rfl howned
  | discarding current key problems =>
      simp only [advance, hphase] at h
      rw [hphase] at howned
      obtain ⟨rfl, rfl⟩ := Prod.mk.inj (Option.some.inj h)
      exact .deletes hrows howned rfl rfl rfl trivial
  | removing documentId deletedAt =>
      simp only [advance, hphase] at h
      apply safe_remove hrows (Option.some.inj h)
  | denying documentId =>
      simp only [advance, hphase, deny] at h
      apply hgoes h _ _ _ trivial
      all_goals split <;> rfl
  | denyingFolder folderId =>
      simp only [advance, hphase, denyFolder] at h
      apply hgoes h _ _ _ trivial
      all_goals split <;> rfl
  | creating _ | issuing _ _ | verifying _ _ _ | returned _ | rejected =>
      simp only [advance, hphase, reduceCtorEq] at h

/-- Every step of a call stays with its user. -/
theorem Call.safe_act {action : Action}
    (hfolders : ∀ folderId folder, s.folders.find folderId = some folder →
      holds folder.userId folderId)
    (howned : c.phase.Owned holds c.userId)
    (h : c.act storage unicode s action = some (s', phase)) :
  c.Safe holds s s' phase
  := by
  cases action with
  | advance => apply safe_advance hrows hfolders howned h
  | insert id =>
      simp only [act] at h
      split at h
      · rename_i hphase
        rw [hphase] at howned
        apply safe_create hrows howned h
      · cases h
  | issue random =>
      simp only [act] at h
      split at h
      · rename_i hphase
        rw [hphase] at howned
        apply safe_issue hrows howned h
      · cases h
  | head answer =>
      simp only [act] at h
      split at h
      · rename_i hphase
        rw [hphase] at howned
        apply safe_verify hrows howned (Option.some.inj h)
      · cases h
  | undeleted =>
      simp only [act] at h
      split at h
      · obtain ⟨rfl, rfl⟩ := Prod.mk.inj (Option.some.inj h)
        exact .goes hrows rfl rfl rfl trivial
      · obtain ⟨rfl, rfl⟩ := Prod.mk.inj (Option.some.inj h)
        exact .goes hrows rfl rfl rfl trivial
      · cases h
  | throw =>
      obtain ⟨rfl, rfl⟩ := throw_cases h
      exact .goes hrows rfl rfl rfl trivial

end

/-! ### What a call sees -/

/-- The part of the state that is a user's.  What is recorded is no part of it. -/
def State.only (s : State config) (userId : ℕ) : State config :=
  { s with
    documents := s.documents.restrict (Document.isOf userId)
    folders := s.folders.restrict (Folder.isOf userId)
    objects := s.objects.restrict (StoredObject.isOf userId)
    events := [] }

/-- What of a step concerns a user. -/
def seen (userId : ℕ) (r : State config × Phase config) : State config × Phase config :=
  (r.1.only userId, r.2)

@[simp]
theorem State.only_only (s : State config) (userId : ℕ) :
  (s.only userId).only userId = s.only userId
  := by
  simp only [only, Table.restrict_restrict]

@[simp]
theorem State.only_record (s : State config) (event : SecurityEvent) (userId : ℕ) :
  (s.record event).only userId = s.only userId
  := rfl

theorem State.only_deleteObject (s : State config) (key : StorageKey) (userId : ℕ) :
  (s.deleteObject key).only userId = (s.only userId).deleteObject key
  := by
  simp [only, deleteObject, Table.restrict_erase]

@[simp]
theorem seen_mk (s : State config) (phase : Phase config) (userId : ℕ) :
  seen userId (s, phase) = (s.only userId, phase)
  := rfl

/-- A user's document is found among the documents of the user. -/
theorem getOwned_restrict (documents : Table Document.id) (userId documentId : ℕ) :
  DocumentsService.getOwned (documents.restrict (Document.isOf userId)) userId documentId
    = DocumentsService.getOwned documents userId documentId
  := by
  have hfilter : ((documents.restrict (Document.isOf userId)).find documentId).filter
        (fun document => document.userId = userId && document.deletedAt.isNone)
      = (documents.find documentId).filter
        (fun document => document.userId = userId && document.deletedAt.isNone) := by
    rw [Table.find_restrict]
    cases documents.find documentId with
    | none => rfl
    | some document =>
        by_cases huser : document.userId = userId <;>
          simp [Option.filter, Document.isOf, huser]
  unfold DocumentsService.getOwned
  rw [hfilter]

theorem State.ownsFolder_only (s : State config) (userId folderId : ℕ) :
  (s.only userId).ownsFolder userId folderId = s.ownsFolder userId folderId
  := by
  simp only [ownsFolder, only, Table.find_restrict]
  cases s.folders.find folderId with
  | none => rfl
  | some folder =>
      by_cases huser : folder.userId = userId <;> simp [Option.filter, Folder.isOf, huser]

/-- Whether a folder that is the user's if it is there may be referred to, is seen among the folders
of the user. -/
theorem State.admits_only {s : State config} {userId : ℕ} {folderId : Option ℕ}
    (h : ∀ id ∈ folderId, HeldBy s.folders userId id) :
  (s.only userId).admits folderId = s.admits folderId
  := by
  cases folderId with
  | none => rfl
  | some id =>
      simp only [admits, only, Option.all_some, Table.find_restrict]
      cases hfind : s.folders.find id with
      | none => rfl
      | some folder =>
          have huser := h id rfl folder hfind
          simp [Option.filter, Folder.isOf, huser]

/-- A write of a user changes the documents of the user, and reports how many. -/
theorem State.send_only (s : State config) {holds : ℕ → ℕ → Prop} {userId : ℕ}
    {w : DocumentWrite config} (hw : w.IsOf holds userId) :
  (s.only userId).send w = ((s.send w).1.only userId, (s.send w).2)
  := by
  have hrestrict : (s.documents.updateMany (w.update s.now)).1.restrict (Document.isOf userId)
      = ((s.documents.restrict (Document.isOf userId)).updateMany (w.update s.now)).1 :=
    Table.restrict_updateMany (w.isOf_apply s.now userId)
  have hcount : ((s.documents.restrict (Document.isOf userId)).updateMany (w.update s.now)).2
      = (s.documents.updateMany (w.update s.now)).2 := by
    apply Table.count_restrict
    intro document _ hadmits
    exact decide_eq_true (hw.guard s.now document hadmits)
  simp only [send, only, hrestrict, hcount]

section

variable (s : State config) (c : Call config)

theorem Call.withOwned_only (documentId : ℕ) (next : Document → Phase config) :
  seen c.userId (c.withOwned (s.only c.userId) documentId next)
    = seen c.userId (c.withOwned s documentId next)
  := by
  unfold withOwned
  rw [show (s.only c.userId).documents = s.documents.restrict (Document.isOf c.userId) from rfl,
    getOwned_restrict]
  split <;> simp

theorem Call.create_only {dto : CreateDocumentDto} {id : ℕ}
    (hphase : (Phase.creating dto : Phase config).Owned (HeldBy s.folders) c.userId)
    (hfresh : s.documents.find id = none) :
  (c.create (s.only c.userId) dto id).map (seen c.userId)
    = (c.create s dto id).map (seen c.userId)
  := by
  unfold create
  simp only [State.admits_only hphase]
  split
  · simp
  · obtain ⟨documents, hcreate⟩ := Table.exists_create
      (r := DocumentsService.createdDocument id c.userId dto.title (emptyToNull dto.description)
        dto.folderId s.now) hfresh
    have honly : (s.only c.userId).documents.create
        (DocumentsService.createdDocument id c.userId dto.title (emptyToNull dto.description)
          dto.folderId (s.only c.userId).now)
          = some (documents.restrict (Document.isOf c.userId)) :=
      Table.create_restrict hcreate (decide_eq_true rfl)
    rw [honly, hcreate]
    simp [State.only, State.record]

theorem Call.save_only {current : Document} {data : DocumentData}
    (hphase : (Phase.saving current data : Phase config).Owned (HeldBy s.folders) c.userId) :
  seen c.userId (c.save (s.only c.userId) current data) = seen c.userId (c.save s current data)
  := by
  have hwrite : DocumentWrite.IsOf (HeldBy s.folders) c.userId
      (.save current.id c.userId data : DocumentWrite config) := DocumentWrite.isOf_save hphase
  unfold save
  simp only [State.admits_only hphase, State.send_only s hwrite]
  split
  · simp
  · split
    · split <;> simp
    · simp

/-- The phase after the statement that stores a new key. -/
def Phase.issued (current : Document) (upload : Upload config) (count : ℕ) : Phase config :=
  if count = 1 then
    match current.storageKey.filter (· ≠ upload.storageKey) with
    | some key => .superseding current.id key upload
    | none => .presigning current.id upload
  else .returned (.error changedConcurrently)

theorem Call.issue_of_fresh {current : Document} {declaration : Declaration config} {random : ℕ}
    {upload : Upload config}
    (hupload : upload = { declaration with storageKey := ⟨c.userId, current.id, random⟩ })
    (hfresh : upload.storageKey ∉ s.issued.map Upload.storageKey) :
  c.issue s current declaration random
    = some (({ s with issued := s.issued ++ [upload] }.send
        (.issue current.id c.userId upload)).1,
      .issued current upload ({ s with issued := s.issued ++ [upload] }.send
        (.issue current.id c.userId upload)).2)
  := by
  subst hupload
  unfold issue Phase.issued
  simp only
  rw [if_neg hfresh]
  split
  · generalize Option.filter _ current.storageKey = superseded
    cases superseded <;> rfl
  · rfl

theorem Call.issue_only (current : Document) (declaration : Declaration config) (random : ℕ) :
  (c.issue (s.only c.userId) current declaration random).map (seen c.userId)
    = (c.issue s current declaration random).map (seen c.userId)
  := by
  obtain ⟨upload, hupload⟩ : ∃ upload : Upload config,
    upload = { declaration with storageKey := ⟨c.userId, current.id, random⟩ } := ⟨_, rfl⟩
  have hkey : upload.storageKey.userId = c.userId := by rw [hupload]
  by_cases hissued : upload.storageKey ∈ s.issued.map Upload.storageKey
  · have honly : upload.storageKey ∈ (s.only c.userId).issued.map Upload.storageKey := hissued
    subst hupload
    simp only [issue]
    rw [if_pos hissued, if_pos honly]
  · have honly : upload.storageKey ∉ (s.only c.userId).issued.map Upload.storageKey := hissued
    have hwrite : DocumentWrite.IsOf (HeldBy s.folders) c.userId
        (.issue current.id c.userId upload) := DocumentWrite.isOf_issue hkey
    have hsend := State.send_only { s with issued := s.issued ++ [upload] } hwrite
    rw [issue_of_fresh s c hupload hissued, issue_of_fresh (s.only c.userId) c hupload honly]
    change some (seen c.userId ((State.send (State.only { s with issued := s.issued ++ [upload] }
      c.userId) _).1, Phase.issued current upload (State.send (State.only
        { s with issued := s.issued ++ [upload] } c.userId) _).2)) = _
    rw [hsend]
    simp

theorem Call.verify_only (userId : ℕ) (current : Document) (key : StorageKey)
    (dto : CompleteUploadDto) (answer : Option StoredObjectMetadata) :
  seen userId (verify unicode (s.only userId) current key dto answer)
    = seen userId (verify unicode s current key dto answer)
  := by
  unfold verify
  split
  · simp
  · simp only
    split <;> simp [State.only]

theorem Call.accept_only (current : Document) (key : StorageKey) (head : StoredObjectMetadata) :
  seen c.userId (c.accept unicode (s.only c.userId) current key head)
    = seen c.userId (c.accept unicode s current key head)
  := by
  unfold accept
  simp only [State.send_only s
    (DocumentWrite.isOf_complete : DocumentWrite.IsOf (HeldBy s.folders) c.userId _)]
  simp

theorem Call.confirm_only (documentId : ℕ) (head : StoredObjectMetadata) (completed : Bool) :
  seen c.userId (c.confirm (s.only c.userId) documentId head completed)
    = seen c.userId (c.confirm s documentId head completed)
  := by
  unfold confirm
  rw [show (s.only c.userId).documents = s.documents.restrict (Document.isOf c.userId) from rfl,
    getOwned_restrict]
  split
  · simp
  · split
    · simp
    · split <;> simp

theorem Call.remove_only (documentId deletedAt : ℕ) :
  seen c.userId (c.remove (s.only c.userId) documentId deletedAt)
    = seen c.userId (c.remove s documentId deletedAt)
  := by
  unfold remove
  simp only [State.send_only s
    (DocumentWrite.isOf_remove : DocumentWrite.IsOf (HeldBy s.folders) c.userId _)]
  split <;> simp

/-- Whether the access to a foreign document or folder is recorded concerns nobody. -/
theorem Call.deny_only (documentId : ℕ) :
  seen c.userId (c.deny (s.only c.userId) documentId) = seen c.userId (c.deny s documentId)
  := by
  unfold deny
  simp only
  split <;> split <;> simp

theorem Call.denyFolder_only (folderId : ℕ) :
  seen c.userId (c.denyFolder (s.only c.userId) folderId) = seen c.userId (c.denyFolder s folderId)
  := by
  unfold denyFolder
  simp only
  split <;> split <;> simp

theorem Call.advance_only (howned : c.phase.Owned (HeldBy s.folders) c.userId) :
  (c.advance storage unicode (s.only c.userId)).map (seen c.userId)
    = (c.advance storage unicode s).map (seen c.userId)
  := by
  have hget := getOwned_restrict s.documents c.userId
  cases hphase : c.phase with
  | creatingIn dto folderId =>
      simp only [advance, hphase, State.ownsFolder_only, Option.map_some, seen_mk, State.only_only]
  | updating documentId dto =>
      simp only [advance, hphase, Option.map_some, withOwned_only]
  | moving current data folderId =>
      simp only [advance, hphase, State.ownsFolder_only, Option.map_some, seen_mk, State.only_only]
  | saving current data =>
      rw [hphase] at howned
      simp only [advance, hphase, Option.map_some, save_only s c howned]
  | saved current data =>
      simp only [advance, hphase]
      rw [show (s.only c.userId).documents = s.documents.restrict (Document.isOf c.userId) from rfl,
        hget]
      split <;> simp
  | requesting documentId declaration =>
      simp only [advance, hphase, Option.map_some, withOwned_only]
  | superseding documentId key upload =>
      simp only [advance, hphase, Option.map_some, seen_mk, ← State.only_deleteObject,
        State.only_only]
  | presigning documentId upload =>
      simp only [advance, hphase, Option.map_some, seen_mk, State.only_only]
      rfl
  | presigned documentId upload url =>
      simp only [advance, hphase]
      rw [show (s.only c.userId).documents = s.documents.restrict (Document.isOf c.userId) from rfl,
        hget]
      split <;> simp [State.only, State.record]
  | completing documentId dto =>
      simp only [advance, hphase, Option.map_some, withOwned_only]
  | accepting current key head =>
      simp only [advance, hphase, Option.map_some, accept_only]
  | confirming documentId head completed =>
      simp only [advance, hphase, Option.map_some, confirm_only]
  | rejecting current key problems =>
      simp only [advance, hphase, Option.map_some, seen_mk,
        State.send_only s
          (DocumentWrite.isOf_reject : DocumentWrite.IsOf (HeldBy s.folders) c.userId _),
        State.only_only]
  | discarding current key problems =>
      simp only [advance, hphase, discard, Option.map_some, seen_mk, State.only_record,
        ← State.only_deleteObject, State.only_only]
  | removing documentId deletedAt =>
      simp only [advance, hphase, Option.map_some, remove_only]
  | denying documentId =>
      simp only [advance, hphase, Option.map_some, deny_only]
  | denyingFolder folderId =>
      simp only [advance, hphase, Option.map_some, denyFolder_only]
  | creating _ | issuing _ _ | verifying _ _ _ | returned _ | rejected =>
      simp only [advance, hphase]

/-- What a step of a call makes of the rows of its user, and where the call goes, depends on these
rows only, as long as the id of a new document is not taken. -/
theorem Call.act_only {action : Action} (howned : c.phase.Owned (HeldBy s.folders) c.userId)
    (hfresh : ∀ id, action = .insert id → s.documents.find id = none) :
  (c.act storage unicode (s.only c.userId) action).map (seen c.userId)
    = (c.act storage unicode s action).map (seen c.userId)
  := by
  cases action with
  | advance => apply advance_only s c howned
  | insert id =>
      simp only [act]
      split
      · rename_i hphase
        rw [hphase] at howned
        apply create_only s c howned (hfresh id rfl)
      · rfl
  | issue random =>
      simp only [act]
      split
      · apply issue_only
      · rfl
  | head answer =>
      simp only [act]
      split
      · simp only [Option.map_some, verify_only]
      · rfl
  | undeleted =>
      simp only [act]
      split
      · simp
      · simp [discard]
      · rfl
  | throw =>
      simp only [act]
      split
      · rfl
      · rfl
      · simp

end

end Documents

end DocuAI
