import DocuAI.Backend.System
import DocuAI.Folders.Confinement

/-!
# Documents sit in folders of their user

In every run of the backend each document is in no folder or in one of its user, and no document is
ever lost (`documents_placed`).

A call on documents looks the folder up and writes the document in two statements, between which the
folder may be removed, and the removal of a folder takes no account of such calls.  So the folder the
call has seen need not be there any more, but it is never another user's (`State.holds`), as folders
keep their user and their ids are not used twice.  That it is there when the document is written is
up to the foreign key (`Refers`).
-/

namespace DocuAI

/-- A document that is in a folder is in one that is there. -/
def Refers (folders : Table Folder.id) (documents : Table Document.id) : Prop :=
  ∀ document ∈ documents.rows, ∀ folderId, document.folderId = some folderId →
    ∃ folder, folders.find folderId = some folder

namespace Refers

variable {folders folders' : Table Folder.id} {documents documents' : Table Document.id}

/-- Folders that are there stay there. -/
theorem of_folders (h : Refers folders documents)
    (hfolders : ∀ id folder, folders.find id = some folder →
      ∃ folder', folders'.find id = some folder') :
  Refers folders' documents
  := by
  intro document hdocument folderId hfolderId
  obtain ⟨folder, hfind⟩ := h document hdocument folderId hfolderId
  apply hfolders folderId folder hfind

/-- A document that is changed is put in a folder that is there. -/
theorem updateMany (h : Refers folders documents) {u : Update Document.id}
    (hu : ∀ document ∈ documents.rows, u.guard document = true → ∀ folderId,
      (u.data document).folderId = some folderId → ∃ folder, folders.find folderId = some folder) :
  Refers folders (documents.updateMany u).1
  := by
  intro document hdocument folderId hfolderId
  obtain ⟨old, hold, rfl⟩ := List.mem_map.mp hdocument
  cases hguard : u.guard old with
  | true =>
      rw [u.apply_of_guard hguard] at hfolderId
      apply hu old hold hguard folderId hfolderId
  | false =>
      rw [u.apply_of_not_guard hguard] at hfolderId
      apply h old hold folderId hfolderId

/-- Documents that are changed keep their folder or are taken out of it. -/
theorem updateMany_of_same (h : Refers folders documents) {u : Update Document.id}
    (hu : ∀ document, (u.data document).folderId = document.folderId
      ∨ (u.data document).folderId = none) :
  Refers folders (documents.updateMany u).1
  := by
  apply h.updateMany
  intro document hdocument _ folderId hfolderId
  rcases hu document with hsame | hnone
  · apply h document hdocument folderId
    rw [← hsame, hfolderId]
  · rw [hnone] at hfolderId
    cases hfolderId

theorem create (h : Refers folders documents) {document : Document}
    (hcreate : documents.create document = some documents')
    (hdocument : ∀ folderId, document.folderId = some folderId →
      ∃ folder, folders.find folderId = some folder) :
  Refers folders documents'
  := by
  intro document' hdocument' folderId hfolderId
  rw [Table.rows_of_create hcreate, List.mem_append, List.mem_singleton] at hdocument'
  rcases hdocument' with hdocument' | rfl
  · apply h document' hdocument' folderId hfolderId
  · apply hdocument folderId hfolderId

/-- A folder is deleted, and the references of documents to it are cleared. -/
theorem erase (h : Refers folders documents) {folderId : ℕ}
    (hcleared : ∀ document ∈ documents.rows, document.folderId ≠ some folderId) :
  Refers (folders.erase folderId) documents
  := by
  intro document hdocument id hid
  obtain ⟨folder, hfind⟩ := h document hdocument id hid
  use folder
  rw [Table.find_erase, if_neg, hfind]
  rintro rfl
  apply hcleared document hdocument hid

end Refers

/-! ### Calls on documents -/

theorem Documents.State.exists_of_admits {config : DocumentsConfig} {s : Documents.State config}
    {folderId : Option ℕ} (h : s.admits folderId = true) {id : ℕ} (hid : folderId = some id) :
  ∃ folder, s.folders.find id = some folder
  := by
  subst hid
  apply Option.isSome_iff_exists.mp h

/-- A step of a call on documents keeps the foreign key. -/
theorem Documents.Call.refers_act {config : DocumentsConfig} {storage : StorageConfig}
    {unicode : Unicode} {s s' : Documents.State config} {c : Documents.Call config}
    {phase : Documents.Phase config} {action : Documents.Action} (h : Refers s.folders s.documents)
    (hact : c.act storage unicode s action = some (s', phase)) :
  Refers s'.folders s'.documents
  := by
  cases Documents.Call.acts_of_act hact with
  | plain | reads | verifies | confirms => exact h
  | creates hcreate hadmits =>
      apply h.create hcreate
      intro folderId hfolderId
      apply State.exists_of_admits hadmits hfolderId
  | @saves id data _ hadmits =>
      apply h.updateMany
      intro document hdocument hguard folderId hfolderId
      change data.folderId.getD document.folderId = some folderId at hfolderId
      cases hdata : data.folderId with
      | none =>
          rw [hdata] at hfolderId
          apply h document hdocument folderId hfolderId
      | some target =>
          rw [hdata] at hfolderId
          apply State.exists_of_admits (hadmits document hdocument hguard)
          rw [hdata]
          apply hfolderId
  | removes | issues | accepts | rejects =>
      apply h.updateMany_of_same
      intro document
      exact .inl rfl

/-! ### Calls on folders -/

/-- A step of a call on folders keeps the foreign key. -/
theorem Folders.Call.refers_act {config : DocumentsConfig} {s s' : Folders.Store}
    {c : Folders.Call} {phase : Folders.Phase} {action : Folders.Action}
    (h : Refers s.folders s.documents) (hact : c.act config s action = some (s', phase)) :
  Refers s'.folders s'.documents
  := by
  cases Folders.Call.acts_of_act hact with
  | reads | throws | orphans | refuses | keeps => exact h
  | creates _ _ hcreate =>
      apply h.of_folders
      intro id folder hfind
      rw [Table.find_create hcreate]
      split
      · exact ⟨_, rfl⟩
      · exact ⟨folder, hfind⟩
  | @saves current _ data =>
      apply h.of_folders
      intro id folder hfind
      use (FoldersService.save s.now current.id data).apply folder
      rw [Table.find_updateMany, hfind, Option.map_some]
  | @deletes folder unfiled =>
      -- The documents are taken out of the folder, then the folder is deleted.
      have hpromoted : Refers (s.folders.updateMany
          (FoldersService.promote s.now folder c.userId)).1 s.documents := by
        apply h.of_folders
        intro id child hfind
        use (FoldersService.promote s.now folder c.userId).apply child
        rw [Table.find_updateMany, hfind, Option.map_some]
      apply Refers.erase
      · apply Refers.updateMany_of_same
        · apply hpromoted.updateMany_of_same
          intro document
          exact .inr rfl
        · intro document
          exact .inr rfl
      · intro document hdocument hin
        obtain ⟨old, -, rfl⟩ := List.mem_map.mp hdocument
        by_cases hold : old.folderId = some folder.id
        · rw [Update.apply_of_guard _ (by simpa [DocumentWrite.update] using hold)] at hin
          cases hin
        · rw [Update.apply_of_not_guard _ (by simpa [DocumentWrite.update] using hold)] at hin
          exact hold hin

/-! ### Text extraction -/

/-- A change of documents that at most records the number of pages of one of them. -/
def PagesCounted (config : DocumentsConfig) (now : ℕ) (documents documents' : Table Document.id) : Prop :=
  documents' = documents
  ∨ ∃ documentId totalPages, documents' = (documents.updateMany
    ((.setTotalPages documentId totalPages : DocumentWrite config).update now)).1

theorem pagesCounted_perform (config : DocumentsConfig) (w : Write) (staleMs now : ℕ) (db : Database) :
  PagesCounted config now db.documents (w.perform staleMs now db).1.documents
  := by
  cases w with
  | setTotalPages jobId documentId totalPages => exact .inr ⟨documentId, totalPages, rfl⟩
  | finalize jobId =>
      left
      simp only [Write.perform, OcrJobService.finalize]
      split <;> rfl
  | _ => exact .inl rfl

theorem OcrWorker.pagesCounted_of_step {config : OcrConfig} {unicode : Unicode} {s s' : State} {a : Label}
    (documents : DocumentsConfig) (ha : ∀ document, a ≠ .writeDocument document)
    (h : step config unicode s a = some s') :
  PagesCounted documents s.now s.db.documents s'.db.documents
  := by
  rcases database_of_step h with ⟨w, -, hdb⟩ | ⟨-, -, hsame | ⟨document, rfl⟩, -⟩
  · rw [hdb]
    apply pagesCounted_perform
  · exact .inl hsame
  · exact absurd rfl (ha document)

theorem OcrService.pagesCounted_of_step {config : OcrConfig} {unicode : Unicode} {hashtext : ℕ → ℕ}
    {s s' : State} {a : Label} (documents : DocumentsConfig) (ha : Backend.ofOcr a = true)
    (h : step config unicode hashtext s a = some s') :
  PagesCounted documents s.worker.now s.worker.db.documents s'.worker.db.documents
  := by
  cases OcrService.labelStep_of_step h with
  | worker _ hworker =>
      apply OcrWorker.pagesCounted_of_step documents _ hworker
      rintro document rfl
      cases ha
  | calls | goes => exact .inl rfl
  | commits _ hact hworker =>
      cases Call.act_acts hact with
      | commits =>
          apply OcrWorker.pagesCounted_of_step documents _ hworker
          rintro document ⟨⟩

/-! ### Documents stay -/

/-- Every document stays, and stays its user's. -/
def DocumentsStay (documents documents' : Table Document.id) : Prop :=
  ∀ id document, documents.find id = some document →
    ∃ document', documents'.find id = some document' ∧ document'.userId = document.userId

theorem DocumentsStay.refl (documents : Table Document.id) :
  DocumentsStay documents documents
  := fun _ document hfind => ⟨document, hfind, rfl⟩

theorem DocumentsStay.trans {a b c : Table Document.id} (h : DocumentsStay a b)
    (h' : DocumentsStay b c) :
  DocumentsStay a c
  := by
  intro id document hfind
  obtain ⟨document', hfind', huser⟩ := h id document hfind
  obtain ⟨document'', hfind'', huser'⟩ := h' id document' hfind'
  exact ⟨document'', hfind'', huser'.trans huser⟩

theorem PagesCounted.stay {config : DocumentsConfig} {now : ℕ} {documents documents' : Table Document.id}
    (h : PagesCounted config now documents documents') :
  DocumentsStay documents documents'
  := by
  rcases h with rfl | ⟨documentId, totalPages, rfl⟩
  · apply DocumentsStay.refl
  · intro id document hfind
    let counted : DocumentWrite config := .setTotalPages documentId totalPages
    use (counted.update now).apply document
    rw [Table.find_updateMany, hfind]
    exact ⟨rfl, counted.userId_apply now document⟩

/-- A document whose pages are counted refers to what it referred to. -/
theorem PagesCounted.owned {config : DocumentsConfig} {now : ℕ} {documents documents' : Table Document.id}
    {holds : ℕ → ℕ → Prop} (h : PagesCounted config now documents documents')
    (hrows : ∀ document ∈ documents.rows, document.Owned holds) :
  ∀ document ∈ documents'.rows, document.Owned holds
  := by
  rcases h with rfl | ⟨documentId, totalPages, rfl⟩
  · apply hrows
  · intro document hdocument
    obtain ⟨old, hold, rfl⟩ := List.mem_map.mp hdocument
    unfold Update.apply
    split
    · exact (hrows old hold).of_same rfl (.inl rfl) rfl
    · apply hrows old hold

theorem PagesCounted.refers {config : DocumentsConfig} {now : ℕ} {folders : Table Folder.id}
    {documents documents' : Table Document.id} (h : PagesCounted config now documents documents')
    (hrefers : Refers folders documents) :
  Refers folders documents'
  := by
  rcases h with rfl | ⟨documentId, totalPages, rfl⟩
  · exact hrefers
  · apply hrefers.updateMany_of_same
    intro document
    exact .inl rfl

namespace Backend

/-! ### What holds in every run -/

variable {config : AppConfig} {unicode : Unicode} {hashtext : ℕ → ℕ}

/-- The folder has been there, and is the user's if it still is. -/
def State.holds (s : State config) (userId folderId : ℕ) : Prop :=
  folderId ∈ s.folderIds ∧ HeldBy s.tables.folders userId folderId

/-- Folders, documents and the calls on documents refer to what is their user's. -/
structure Invariant (hashtext : ℕ → ℕ) (s : State config) : Prop where
  hierarchy : Folders.Invariant hashtext s.folders
  ids : ∀ folder ∈ s.tables.folders.rows, folder.id ∈ s.folderIds
  documents : ∀ document ∈ s.tables.documents.rows, document.Owned s.holds
  calls : ∀ c ∈ s.documentCalls.rows, c.phase.Owned s.holds c.userId
  refers : Refers s.tables.folders s.tables.documents

section

variable {s s' : State config}

theorem invariant_init (h : (system config unicode hashtext).init s) :
  Invariant hashtext s
  := by
  obtain ⟨hfolders, hdocuments, -, -⟩ := h
  have hfolderRows : s.tables.folders.rows = [] := hfolders.1
  have hdocumentRows : s.tables.documents.rows = [] := hdocuments.1
  have hcallRows : s.documentCalls.rows = [] := hdocuments.2.1
  constructor
  · apply Folders.invariant_init hfolders
  · rw [hfolderRows]
    simp
  · rw [hdocumentRows]
    simp
  · rw [hcallRows]
    simp
  · intro document hdocument
    rw [hdocumentRows] at hdocument
    cases hdocument

/-- A step of the calls on folders. -/
theorem Invariant.step_folders (h : Invariant hashtext s) {a : Folders.Label} {part : Folders.State}
    (ha : ofFolders a = true) (hfresh : ∀ id ∈ generated a, id ∉ s.folderIds)
    (hstep : Folders.step config.documents hashtext s.folders a = some part) :
  Invariant hashtext { s.withFolders part with folderIds := s.folderIds ++ (generated a).toList }
  ∧ DocumentsStay s.tables.documents part.documents
  := by
  have hpart : Folders.Invariant hashtext part := h.hierarchy.step hstep
  have hhierarchy : Folders.Invariant hashtext (s.withFolders part).folders :=
    ⟨hpart.hierarchy, hpart.knows, hpart.locking⟩
  cases a with
  | tick | writeDocuments => cases ha
  | call id userId operation =>
      obtain ⟨calls, -, hstep⟩ := Option.bind_eq_some_iff.mp hstep
      obtain rfl := Option.some.inj hstep
      have hholds : ∀ userId folderId, s.holds userId folderId →
          folderId ∈ s.folderIds ++ [] ∧ HeldBy s.tables.folders userId folderId := by
        intro userId folderId hheld
        rw [List.append_nil]
        exact hheld
      refine ⟨⟨hhierarchy, ?_, ?_, ?_, h.refers⟩, DocumentsStay.refl _⟩
      · intro folder hfolder
        apply List.mem_append_left _ (h.ids folder hfolder)
      · intro document hdocument
        apply (h.documents document hdocument).mono hholds
      · intro c hc
        apply (h.calls c hc).mono hholds
  | step callId action =>
      obtain ⟨c, hfind, hstep⟩ := Option.bind_eq_some_iff.mp hstep
      split at hstep
      swap
      · cases hstep
      obtain ⟨⟨t, phase⟩, hact, hstep⟩ := Option.bind_eq_some_iff.mp hstep
      obtain rfl := Option.some.inj hstep
      have hsafe := Folders.Call.safe_act (h.hierarchy.knows c (Table.mem_of_find hfind)) h.documents
        (fun _ _ hheld => hheld.2) hact
      have hgenerated : ∀ id, action = .insert id →
          generated (.step callId action) = some id := by
        rintro id rfl
        rfl
      -- A folder with an old id is an old one, and is still its user's.
      have hholds : ∀ userId folderId, s.holds userId folderId →
          folderId ∈ s.folderIds ++ (generated (.step callId action)).toList
            ∧ HeldBy t.folders userId folderId := by
        rintro userId folderId ⟨hid, hheld⟩
        refine ⟨List.mem_append_left _ hid, ?_⟩
        intro folder' hfolder'
        obtain rfl := Table.key_of_find hfolder'
        rcases hsafe.folders folder' (Table.mem_of_find hfolder') with
          ⟨folder, hfolder, hsame, huser⟩ | hinsert
        · rw [← huser]
          apply hheld
          rw [← hsame]
          apply Table.mem_rows_iff.mp hfolder
        · exact absurd hid (hfresh folder'.id (hgenerated folder'.id hinsert))
      refine ⟨⟨hhierarchy, ?_, ?_, ?_, ?_⟩, hsafe.documents.owners⟩
      · intro folder' hfolder'
        rcases hsafe.folders folder' hfolder' with ⟨folder, hfolder, hsame, -⟩ | hinsert
        · rw [← hsame]
          apply List.mem_append_left _ (h.ids folder hfolder)
        · apply List.mem_append_right
          rw [hgenerated folder'.id hinsert]
          apply List.mem_singleton_self
      · intro document hdocument
        apply (hsafe.documents.owned document hdocument).mono hholds
      · intro c' hc'
        apply (h.calls c' hc').mono hholds
      · apply Folders.Call.refers_act h.refers hact

/-- A step of the calls on documents. -/
theorem Invariant.step_documents (h : Invariant hashtext s) {a : Documents.Label}
    {part : Documents.State config.documents} (ha : ofDocuments a = true)
    (hstep : Documents.step config.storage unicode s.documents a = some part) :
  Invariant hashtext (s.withDocuments part) ∧ DocumentsStay s.tables.documents part.documents
  := by
  cases a with
  | tick | writeFolder | removeFolder | setTotalPages => cases ha
  | call id userId operation =>
      obtain ⟨calls, hcreate, hstep⟩ := Option.bind_eq_some_iff.mp hstep
      obtain rfl := Option.some.inj hstep
      refine ⟨⟨h.hierarchy, h.ids, h.documents, ?_, h.refers⟩, DocumentsStay.refl _⟩
      intro c hc
      change c ∈ calls.rows at hc
      rw [Table.rows_of_create hcreate, List.mem_append, List.mem_singleton] at hc
      rcases hc with hc | rfl
      · apply h.calls c hc
      · apply Documents.Operation.owned_start
  | step callId action =>
      obtain ⟨c, hfind, hstep⟩ := Option.bind_eq_some_iff.mp hstep
      obtain ⟨⟨t, phase⟩, hact, hstep⟩ := Option.bind_eq_some_iff.mp hstep
      obtain rfl := Option.some.inj hstep
      have hfolders : ∀ folderId folder, s.tables.folders.find folderId = some folder →
          s.holds folder.userId folderId := by
        intro folderId folder hfolder
        constructor
        · obtain rfl := Table.key_of_find hfolder
          apply h.ids folder (Table.mem_of_find hfolder)
        · intro folder' hfolder'
          rw [hfolder] at hfolder'
          rw [Option.some.inj hfolder']
      have hsafe : c.Safe s.holds s.documents t phase := by
        apply Documents.Call.safe_act h.documents hfolders (h.calls c (Table.mem_of_find hfind)) hact
      have hrefers := Documents.Call.refers_act h.refers hact
      have hsame : t.folders = s.tables.folders := hsafe.folders
      have hholds : ∀ userId folderId, s.holds userId folderId →
          folderId ∈ s.folderIds ∧ HeldBy t.folders userId folderId := by
        intro userId folderId hheld
        rw [hsame]
        exact hheld
      refine ⟨⟨?_, ?_, ?_, ?_, hrefers⟩, hsafe.documents.owners⟩
      · constructor
        · intro userId
          change Folders.Hierarchy (Folders.ownedBy t.folders userId)
          rw [hsame]
          apply h.hierarchy.hierarchy
        · intro c hc
          change c.phase.Knows (Folders.ownedBy t.folders c.userId)
          rw [hsame]
          apply h.hierarchy.knows c hc
        · apply h.hierarchy.locking
      · intro folder hfolder
        change folder ∈ t.folders.rows at hfolder
        rw [hsame] at hfolder
        apply h.ids folder hfolder
      · intro document hdocument
        apply (hsafe.documents.owned document hdocument).mono hholds
      · intro c' hc'
        rcases Table.mem_rows_put_iff.mp hc' with rfl | ⟨hc', -⟩
        · apply hsafe.phase.mono hholds
        · apply (h.calls c' hc').mono hholds
  | put url contentType bytes etag =>
      simp only [Documents.step] at hstep
      split at hstep
      · obtain rfl := Option.some.inj hstep
        exact ⟨⟨h.hierarchy, h.ids, h.documents, h.calls, h.refers⟩, DocumentsStay.refl _⟩
      · cases hstep

/-- A step of the text extraction. -/
theorem Invariant.step_ocr (h : Invariant hashtext s) {a : OcrService.Label} {part : OcrService.State}
    (ha : ofOcr a = true) (hstep : OcrService.step config.ocr unicode hashtext s.ocr a = some part) :
  Invariant hashtext (s.withOcr part) ∧ DocumentsStay s.tables.documents part.worker.db.documents
  := by
  have hcounted : PagesCounted config.documents s.now s.tables.documents part.worker.db.documents :=
    OcrService.pagesCounted_of_step config.documents ha hstep
  refine ⟨⟨?_, h.ids, ?_, h.calls, ?_⟩, hcounted.stay⟩
  · exact ⟨h.hierarchy.hierarchy, h.hierarchy.knows, h.hierarchy.locking⟩
  · apply hcounted.owned h.documents
  · apply hcounted.refers h.refers

theorem Invariant.step {label : Label} (h : Invariant hashtext s)
    (hstep : (system config unicode hashtext).step s label = some s') :
  Invariant hashtext s' ∧ DocumentsStay s.tables.documents s'.tables.documents
  := by
  change Backend.step config unicode hashtext s label = some s' at hstep
  cases label with
  | tick ms =>
      obtain rfl := Option.some.inj hstep
      refine ⟨⟨?_, h.ids, h.documents, h.calls, h.refers⟩, DocumentsStay.refl _⟩
      exact ⟨h.hierarchy.hierarchy, h.hierarchy.knows, h.hierarchy.locking⟩
  | folders a =>
      simp only [Backend.step] at hstep
      split at hstep
      · rename_i hguard
        obtain ⟨part, hpart, hstep⟩ := Option.bind_eq_some_iff.mp hstep
        obtain rfl := Option.some.inj hstep
        apply h.step_folders hguard.1 hguard.2 hpart
      · cases hstep
  | documents a =>
      simp only [Backend.step] at hstep
      split at hstep
      · rename_i hguard
        obtain ⟨part, hpart, hstep⟩ := Option.bind_eq_some_iff.mp hstep
        obtain rfl := Option.some.inj hstep
        apply h.step_documents hguard hpart
      · cases hstep
  | ocr a =>
      simp only [Backend.step] at hstep
      split at hstep
      · rename_i hguard
        obtain ⟨part, hpart, hstep⟩ := Option.bind_eq_some_iff.mp hstep
        obtain rfl := Option.some.inj hstep
        apply h.step_ocr hguard hpart
      · cases hstep

theorem invariant_of_run {ts : List (Transition (State config) Label)}
    (hrun : (system config unicode hashtext).Run s ts s')
    (hinit : (system config unicode hashtext).init s) :
  Invariant hashtext s'
  := by
  apply hrun.invariant (invariant_init hinit)
  intro t _ hstep h
  apply (h.step hstep).1

end

/-! ### Every document is placed -/

/-- In every run of the backend each document is in no folder or in one of its user that is there,
and no run loses a document. -/
theorem documents_placed {s s' s'' : State config} {ts ts' : List (Transition (State config) Label)}
    (hinit : (system config unicode hashtext).init s)
    (hrun : (system config unicode hashtext).Run s ts s')
    (hrun' : (system config unicode hashtext).Run s' ts' s'') :
  (∀ document ∈ s'.tables.documents.rows, ∀ folderId, document.folderId = some folderId →
    ∃ folder ∈ s'.tables.folders.rows, folder.id = folderId ∧ folder.userId = document.userId)
  ∧ ∀ document ∈ s'.tables.documents.rows, ∃ document' ∈ s''.tables.documents.rows,
    document'.id = document.id ∧ document'.userId = document.userId
  := by
  have h := invariant_of_run hrun hinit
  constructor
  · intro document hdocument folderId hfolderId
    obtain ⟨folder, hfind⟩ := h.refers document hdocument folderId hfolderId
    refine ⟨folder, Table.mem_of_find hfind, Table.key_of_find hfind, ?_⟩
    apply ((h.documents document hdocument).folder folderId hfolderId).2 folder hfind
  · have hstay : Invariant hashtext s'' ∧ DocumentsStay s'.tables.documents s''.tables.documents := by
      apply hrun'.invariant (I := fun t => Invariant hashtext t
        ∧ DocumentsStay s'.tables.documents t.tables.documents) ⟨h, DocumentsStay.refl _⟩
      rintro t _ hstep ⟨hsource, hstays⟩
      obtain ⟨htarget, hkept⟩ := hsource.step hstep
      exact ⟨htarget, hstays.trans hkept⟩
    intro document hdocument
    obtain ⟨document', hfind, huser⟩ := hstay.2 document.id document (Table.mem_rows_iff.mp hdocument)
    exact ⟨document', Table.mem_of_find hfind, Table.key_of_find hfind, huser⟩

/-! A document is put in a folder.  The folder is removed while another document is on its way into
it, and this one is inserted after the documents of the folder have been moved to the root. -/

def sampleConfig : AppConfig where
  documents := Folders.sampleConfig
  storage := { uploadUrlTtlSeconds := 900 }
  downloadUrlTtlSeconds := 300
  ocr := defaultOcrConfig

def sampleState : State sampleConfig where
  now := 0
  tables :=
    { ocrJobs := Table.empty
      ocrPages := Table.empty
      documents := Table.empty
      folders := Table.empty
      objects := Table.empty }
  folderCalls := Table.empty
  documentCalls := Table.empty
  ocrCalls := Table.empty
  processes := Table.empty
  reconcilers := Table.empty
  folderIds := []
  issued := []
  urls := []
  heads := []
  events := []

def fileTwice : List Label :=
  [.folders (.call 1 7 (.create ⟨js "Inbox", none⟩)), .folders (.step 1 .lock),
    .folders (.step 1 (.insert 1)), .documents (.call 1 7 (.create ⟨js "First", none, some 1⟩)),
    .documents (.step 1 .advance), .documents (.step 1 (.insert 10)),
    .documents (.call 2 7 (.create ⟨js "Second", none, some 1⟩)), .documents (.step 2 .advance)]

def removeBetween : List Label :=
  [.folders (.call 2 7 (.remove 1)), .folders (.step 2 .lock), .folders (.step 2 .advance),
    .folders (.step 2 .advance), .documents (.step 2 (.insert 11)), .folders (.step 2 .advance)]

/-- The documents, with the folder each of them is in. -/
def placesOf (s : State sampleConfig) : List (ℕ × Option ℕ) :=
  s.tables.documents.rows.map fun document => (document.id, document.folderId)

theorem documents_placed_of_removeBetween :
  ∃ s ts s' ts', (system sampleConfig asciiUnicode id).Run sampleState ts s
    ∧ (system sampleConfig asciiUnicode id).Run s ts' s'
    ∧ placesOf s = [(10, some 1)] ∧ placesOf s' = [(10, none), (11, none)]
    ∧ s'.tables.folders.rows = []
    ∧ (∀ document ∈ s.tables.documents.rows, ∀ folderId, document.folderId = some folderId →
      ∃ folder ∈ s.tables.folders.rows, folder.id = folderId ∧ folder.userId = document.userId)
    ∧ ∀ document ∈ s.tables.documents.rows, ∃ document' ∈ s'.tables.documents.rows,
      document'.id = document.id ∧ document'.userId = document.userId
  := by
  have hfiled : ((system sampleConfig asciiUnicode id).execute (fun _ => true) sampleState
      fileTwice).any (fun s => placesOf s = [(10, some 1)]
        && ((system sampleConfig asciiUnicode id).execute (fun _ => true) s removeBetween).any
          fun s' => placesOf s' = [(10, none), (11, none)] && s'.tables.folders.rows = [])
      = true := by
    decide +kernel
  obtain ⟨s, hs, hend⟩ := (Option.any_eq_true _ _).mp hfiled
  simp only [Bool.and_eq_true, decide_eq_true_eq] at hend
  obtain ⟨hplaces, hremoved⟩ := hend
  obtain ⟨s', hs', hend'⟩ := (Option.any_eq_true _ _).mp hremoved
  simp only [Bool.and_eq_true, decide_eq_true_eq] at hend'
  obtain ⟨ts, hrun, -⟩ := TransitionSystem.run_of_execute hs
  obtain ⟨ts', hrun', -⟩ := TransitionSystem.run_of_execute hs'
  have hinit : (system sampleConfig asciiUnicode id).init sampleState := by
    refine ⟨⟨rfl, rfl⟩, ⟨rfl, rfl, rfl, rfl, rfl, rfl⟩, ⟨⟨rfl, rfl, rfl, rfl⟩, rfl⟩, rfl⟩
  exact ⟨s, ts, s', ts', hrun, hrun', hplaces, hend'.1, hend'.2, documents_placed hinit hrun hrun'⟩

end Backend

end DocuAI
