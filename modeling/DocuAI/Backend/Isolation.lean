import DocuAI.Backend.Completion
import DocuAI.Backend.Removal
import DocuAI.Folders.Confinement

/-!
# Users neither observe nor affect each other

Two states of the backend in which a user has the same rows answer every operation of the user
alike, and leave the user with the same rows; the rows of other users stay as they are
(`users_isolated`).  What other rows there are is nothing a call depends on, because rows refer to
rows of their user only (`Tables.Owned`), as they do in every run (`owned_of_run`).
-/

namespace DocuAI

/-! ### Documents that stay -/

section

variable {db : Database} {documents : Table Document.id}

theorem ownerOf_of_stay (hstay : DocumentsStay db.documents documents) {documentId userId : ℕ}
    (howner : db.ownerOf documentId = some userId) :
  ({ db with documents } : Database).ownerOf documentId = some userId
  := by
  obtain ⟨document, hfind, rfl⟩ := Option.map_eq_some_iff.mp howner
  obtain ⟨document', hfind', huser⟩ := hstay documentId document hfind
  rw [Database.ownerOf, hfind', Option.map_some, huser]

theorem Database.Owned.stay (h : db.Owned) (hstay : DocumentsStay db.documents documents) :
  ({ db with documents } : Database).Owned
  := by
  constructor
  · intro job hjob
    apply ownerOf_of_stay hstay (h.jobs job hjob)
  · apply h.pages

/-- A change of documents that stay leaves the jobs and pages of a user as they are. -/
theorem Database.only_of_stay (h : db.Owned) (hstay : DocumentsStay db.documents documents)
    (userId : ℕ) :
  ({ db with documents } : Database).only userId
    = { db.only userId with documents := documents.restrict (Document.isOf userId) }
  := by
  have howner : ∀ job ∈ db.ocrJobs.rows,
      ({ db with documents } : Database).ownerOf job.documentId = db.ownerOf job.documentId := by
    intro job hjob
    rw [h.jobs job hjob]
    apply ownerOf_of_stay hstay (h.jobs job hjob)
  unfold only
  congr 1
  · apply Table.restrict_congr
    intro job hjob
    rw [howner job hjob]
  · apply Table.restrict_congr
    intro page hpage
    obtain ⟨job, hfind⟩ := h.pages page hpage
    change (db.ocrJobs.find page.ocrJobId).any _ = _
    rw [hfind, Option.any_some, Option.any_some, howner job (Table.mem_of_find hfind)]

end

namespace Backend

variable {config : AppConfig} {unicode : Unicode} {hashtext : ℕ → ℕ} {texts : Texts}
  {env env₁ env₂ : Environment} {t t₁ t₂ : Tables} {userId : ℕ}

/-! ### What concerns a user -/

/-- What of an environment concerns a user: of the storage, the answers for keys of the user. -/
def Environment.only (env : Environment) (userId : ℕ) : Environment :=
  { env with
    head := fun key => if key.userId = userId then env.head key else none
    deletes := fun key => key.userId = userId && env.deletes key }

/-- The id that is generated is none of a row. -/
structure Environment.Fresh (env : Environment) (t : Tables) : Prop where
  folder : t.folders.find env.id = none
  document : t.documents.find env.id = none
  ocrJob : t.ocrJobs.find env.id = none

/-- What rows refer to is their user's. -/
structure Tables.Owned (t : Tables) : Prop where
  hierarchy : ∀ userId, Folders.Hierarchy (Folders.ownedBy t.folders userId)
  documents : ∀ document ∈ t.documents.rows, document.Owned (HeldBy t.folders)
  database : t.toDatabase.Owned

/-! ### Calls on folders -/

/-- A call of the user on folders: it has changed nothing before its last statement, and nothing of
other users with it. -/
structure FoldersCall (t : Tables) (userId : ℕ) (r : Folders.Store × Folders.Call) : Prop where
  user : r.2.userId = userId
  opened : foldersEnded r.2.phase = false → r.1.folders = t.folders ∧ r.1.documents = t.documents
    ∧ r.2.phase.Knows (Folders.ownedBy t.folders userId)
  stay : DocumentsStay t.documents r.1.documents
  folders : ∀ other ≠ userId, r.1.folders.restrict (Folder.isOf other)
    = t.folders.restrict (Folder.isOf other)
  documents : ∀ other ≠ userId, r.1.documents.restrict (Document.isOf other)
    = t.documents.restrict (Document.isOf other)

theorem foldersCall_start (operation : Folders.Operation) :
  FoldersCall t userId (foldersStart env t userId operation)
  := by
  constructor
  · rfl
  · intro _
    exact ⟨rfl, rfl, trivial⟩
  · apply DocumentsStay.refl
  · intro other _
    rfl
  · intro other _
    rfl

theorem FoldersCall.step {r : Folders.Store × Folders.Call} (ht : t.Owned)
    (h : FoldersCall t userId r) (hopen : foldersEnded r.2.phase = false) {action : Folders.Action}
    {now : ℕ} {s : Folders.Store} {phase : Folders.Phase}
    (hact : r.2.act config.documents { r.1 with now } action = some (s, phase)) :
  FoldersCall t userId (s, { r.2 with phase })
  := by
  obtain ⟨store, c⟩ := r
  obtain ⟨hfolders, hdocuments, hknows⟩ := h.opened hopen
  obtain rfl := h.user
  simp only at hfolders hdocuments hknows hact ⊢
  rw [hfolders, hdocuments] at hact
  have hsafe := Folders.Call.safe_act hknows ht.documents (fun _ _ hheld => hheld) hact
  refine ⟨rfl, ?_, hsafe.documents.owners, hsafe.others, hsafe.documents.others⟩
  intro hphase
  have hkeeps := Folders.Call.keeps_act (ht.hierarchy c.userId) hknows hact
  cases Folders.Call.acts_of_act hact with
  | reads => exact ⟨rfl, rfl, hkeeps.knows⟩
  | _ => cases hphase

/-- Whatever a call of the user on folders does depends on the rows of the user. -/
theorem FoldersCall.act_only (config : AppConfig) {store : Folders.Store} {c : Folders.Call}
    (ht : t.Owned) (hfresh : env.Fresh t) (h : FoldersCall t userId (store, c))
    (hopen : foldersEnded c.phase = false) (n now : ℕ) :
  (c.act config.documents (Folders.Store.only { store with now } userId)
      (env.folders n c.phase)).map (Folders.seen userId)
    = (c.act config.documents { store with now } (env.folders n c.phase)).map (Folders.seen userId)
  := by
  obtain ⟨hfolders, hdocuments, hknows⟩ := h.opened hopen
  obtain rfl := h.user
  simp only at hfolders hdocuments hknows ⊢
  apply Folders.Call.act_only
  · rw [hfolders]
    apply ht.hierarchy
  · rw [hfolders]
    apply hknows
  · intro id hinsert
    rw [hfolders]
    unfold Environment.folders at hinsert
    split at hinsert
    · cases hinsert
    · split at hinsert
      · cases hinsert
      · obtain rfl := Folders.Action.insert.inj hinsert
        apply hfresh.folder
      · cases hinsert

/-- The calls of the user on folders that look alike to the user. -/
structure FoldersAlike (t₁ t₂ : Tables) (userId : ℕ) (r₁ r₂ : Folders.Store × Folders.Call) :
    Prop where
  first : FoldersCall t₁ userId r₁
  second : FoldersCall t₂ userId r₂
  store : r₁.1.only userId = r₂.1.only userId
  call : r₁.2 = r₂.2

/-- Calls on folders that look alike go on alike. -/
theorem FoldersAlike.next (ht₁ : t₁.Owned) (ht₂ : t₂.Owned)
    (henv : env₁.only userId = env₂.only userId) (hfresh₁ : env₁.Fresh t₁) (hfresh₂ : env₂.Fresh t₂)
    {r₁ r₂ : Folders.Store × Folders.Call} (h : FoldersAlike t₁ t₂ userId r₁ r₂)
    (hopen : foldersEnded r₁.2.phase = false) (n : ℕ) :
  ∃ r₁' r₂', (foldersProgram config env₁).next n r₁ = some r₁'
    ∧ (foldersProgram config env₂).next n r₂ = some r₂'
    ∧ FoldersAlike t₁ t₂ userId r₁' r₂' ∧ r₁'.2.phase.rank < r₁.2.phase.rank
  := by
  obtain ⟨store₁, c⟩ := r₁
  obtain ⟨store₂, c₂⟩ := r₂
  obtain ⟨h₁, h₂, hstore, hcall⟩ := h
  obtain rfl : c = c₂ := hcall
  have hclock : env₁.clock n = env₂.clock n := congrArg (fun env => env.clock n) henv
  have haction : env₁.folders n c.phase = env₂.folders n c.phase :=
    congrArg (fun env => env.folders n c.phase) henv
  have honly : Folders.Store.only { store₁ with now := env₁.clock n } userId
      = Folders.Store.only { store₂ with now := env₂.clock n } userId := by
    rw [hclock]
    exact congrArg (fun store : Folders.Store => { store with now := env₂.clock n }) hstore
  have hsame := h₁.act_only config ht₁ hfresh₁ hopen n (env₁.clock n)
  have hsame₂ := h₂.act_only config ht₂ hfresh₂ hopen n (env₂.clock n)
  rw [honly, haction, hsame₂] at hsame
  obtain ⟨⟨s₁, phase⟩, hact₁⟩ : ∃ r, c.act config.documents { store₁ with now := env₁.clock n }
      (env₁.folders n c.phase) = some r := by
    apply exists_act_folders hopen
    obtain ⟨hfolders, -, -⟩ := h₁.opened hopen
    rw [hfolders]
    apply hfresh₁.folder
  rw [← haction] at hsame
  rw [hact₁] at hsame
  obtain ⟨⟨s₂, phase₂⟩, hact₂, hseen⟩ := Option.map_eq_some_iff.mp hsame
  obtain ⟨hs, rfl⟩ := Prod.mk.inj hseen
  refine ⟨(s₁, { c with phase := phase₂ }), (s₂, { c with phase := phase₂ }), ?_, ?_,
    ⟨h₁.step ht₁ hopen hact₁, h₂.step ht₂ hopen hact₂, hs.symm, rfl⟩, ?_⟩
  · simp [foldersProgram, hact₁]
  · rw [haction] at hact₂
    simp [foldersProgram, hact₂]
  · apply Folders.Call.rank_of_act hact₁

/-! ### Calls on documents -/

/-- A call of the user on documents: it has changed no folder and nothing of other users, and refers
to what is the user's. -/
structure DocumentsCall (t : Tables) (userId : ℕ)
    (r : Documents.State config.documents × Documents.Call config.documents) : Prop where
  user : r.2.userId = userId
  folders : r.1.folders = t.folders
  owned : ∀ document ∈ r.1.documents.rows, document.Owned (HeldBy t.folders)
  phase : r.2.phase.Owned (HeldBy t.folders) userId
  opened : r.2.phase.starts = true → r.1.documents = t.documents ∧ r.1.issued = []
  stay : DocumentsStay t.documents r.1.documents
  documents : ∀ other ≠ userId, r.1.documents.restrict (Document.isOf other)
    = t.documents.restrict (Document.isOf other)
  objects : ∀ other ≠ userId, r.1.objects.restrict (StoredObject.isOf other)
    = t.objects.restrict (StoredObject.isOf other)

theorem documentsCall_start (ht : t.Owned) (operation : Documents.Operation) :
  DocumentsCall t userId (documentsStart config unicode env t userId operation)
  := by
  constructor
  · rfl
  · rfl
  · apply ht.documents
  · apply Documents.Operation.owned_start
  · intro _
    exact ⟨rfl, rfl⟩
  · apply DocumentsStay.refl
  · intro other _
    rfl
  · intro other _
    rfl

section

variable {s s' : Documents.State config.documents} {c : Documents.Call config.documents}
  {phase : Documents.Phase config.documents}

theorem DocumentsCall.step (h : DocumentsCall t userId (s, c)) {action : Documents.Action} {now : ℕ}
    (hact : c.act config.storage unicode { s with now } action = some (s', phase)) :
  DocumentsCall t userId (s', { c with phase })
  := by
  obtain rfl := h.user
  have hfolders : s.folders = t.folders := h.folders
  have hrows : ∀ document ∈ s.documents.rows, document.Owned (HeldBy t.folders) := h.owned
  have hphase : c.phase.Owned (HeldBy t.folders) c.userId := h.phase
  have hsafe : c.Safe (HeldBy t.folders) { s with now } s' phase := by
    apply Documents.Call.safe_act (s := { s with now }) hrows _ hphase hact
    intro folderId folder hfind folder' hfind'
    rw [← hfolders, hfind] at hfind'
    rw [Option.some.inj hfind']
  refine ⟨rfl, ?_, hsafe.documents.owned, hsafe.phase, ?_, ?_, ?_, ?_⟩
  · exact hsafe.folders.trans hfolders
  · intro hstarts
    obtain ⟨hc, hdocuments, hissued⟩ := Documents.Call.starts_of_act hact hstarts
    obtain ⟨hsame, hnone⟩ := h.opened hc
    exact ⟨hdocuments.trans hsame, hissued.trans hnone⟩
  · apply h.stay.trans hsafe.documents.owners
  · intro other hne
    rw [← h.documents other hne]
    apply hsafe.documents.others other hne
  · intro other hne
    rw [← h.objects other hne]
    apply hsafe.objects other hne

/-- Whatever a call of the user on documents does depends on the rows of the user. -/
theorem DocumentsCall.act_only (hfresh : env.Fresh t) (h : DocumentsCall t userId (s, c)) (n now : ℕ) :
  (c.act config.storage unicode (Documents.State.only { s with now } userId)
      (env.documents n c.phase)).map (Documents.seen userId)
    = (c.act config.storage unicode { s with now } (env.documents n c.phase)).map
      (Documents.seen userId)
  := by
  obtain rfl := h.user
  have hfolders : s.folders = t.folders := h.folders
  apply Documents.Call.act_only
  · rw [hfolders]
    apply h.phase
  · intro id hinsert
    unfold Environment.documents at hinsert
    split at hinsert
    · cases hinsert
    · split at hinsert
      · rename_i hphase
        obtain rfl := Documents.Action.insert.inj hinsert
        have hstarts : c.phase.starts = true := by
          rw [hphase]
          rfl
        rw [(h.opened hstarts).1]
        apply hfresh.document
      · cases hinsert
      · cases hinsert
      · unfold Environment.deletion at hinsert
        split at hinsert <;> cases hinsert
      · unfold Environment.deletion at hinsert
        split at hinsert <;> cases hinsert
      · cases hinsert

/-- A call of the user meets the storage under keys of the user only. -/
theorem DocumentsCall.action_only (h : DocumentsCall t userId (s, c)) (n : ℕ) :
  (env.only userId).documents n c.phase = env.documents n c.phase
  := by
  have hphase := h.phase
  simp only at hphase
  unfold Environment.documents
  rw [show (env.only userId).throws = env.throws from rfl]
  split
  · rfl
  · split
    · rfl
    · rfl
    · rename_i hverifying
      rw [hverifying] at hphase
      have hkey : _ = userId := hphase
      simp [Environment.only, hkey]
    · rename_i hsuperseding
      rw [hsuperseding] at hphase
      have hkey : _ = userId := hphase
      simp [Environment.deletion, Environment.only, hkey]
    · rename_i hdiscarding
      rw [hdiscarding] at hphase
      have hkey : _ = userId := hphase
      simp [Environment.deletion, Environment.only, hkey]
    · rfl

end

/-- Calls of the user on documents that look alike to the user. -/
structure DocumentsAlike (t₁ t₂ : Tables) (userId : ℕ)
    (r₁ r₂ : Documents.State config.documents × Documents.Call config.documents) : Prop where
  first : DocumentsCall t₁ userId r₁
  second : DocumentsCall t₂ userId r₂
  state : r₁.1.only userId = r₂.1.only userId
  call : r₁.2 = r₂.2

/-- Calls on documents that look alike go on alike. -/
theorem DocumentsAlike.next (henv : env₁.only userId = env₂.only userId) (hfresh₁ : env₁.Fresh t₁)
    (hfresh₂ : env₂.Fresh t₂)
    {r₁ r₂ : Documents.State config.documents × Documents.Call config.documents}
    (h : DocumentsAlike t₁ t₂ userId r₁ r₂) (hopen : documentsEnded r₁.2.phase = false) (n : ℕ) :
  ∃ r₁' r₂', (documentsProgram config unicode env₁).next n r₁ = some r₁'
    ∧ (documentsProgram config unicode env₂).next n r₂ = some r₂'
    ∧ DocumentsAlike t₁ t₂ userId r₁' r₂' ∧ r₁'.2.phase.rank < r₁.2.phase.rank
  := by
  obtain ⟨state₁, c⟩ := r₁
  obtain ⟨state₂, c₂⟩ := r₂
  obtain ⟨h₁, h₂, hstate, hcall⟩ := h
  obtain rfl : c = c₂ := hcall
  have hclock : env₁.clock n = env₂.clock n := congrArg (fun env => env.clock n) henv
  have haction : env₁.documents n c.phase = env₂.documents n c.phase := by
    calc env₁.documents n c.phase = (env₁.only userId).documents n c.phase := (h₁.action_only n).symm
      _ = (env₂.only userId).documents n c.phase := by rw [henv]
      _ = env₂.documents n c.phase := h₂.action_only n
  have honly : Documents.State.only { state₁ with now := env₁.clock n } userId
      = Documents.State.only { state₂ with now := env₂.clock n } userId := by
    rw [hclock]
    exact congrArg (fun state : Documents.State config.documents =>
      { state with now := env₂.clock n }) hstate
  have hsame₁ : _ = Option.map _ (c.act config.storage unicode _ _) :=
    h₁.act_only hfresh₁ n (env₁.clock n)
  have hsame₂ : _ = Option.map _ (c.act config.storage unicode _ _) :=
    h₂.act_only hfresh₂ n (env₂.clock n)
  rw [honly, haction, hsame₂] at hsame₁
  obtain ⟨⟨s₁, phase⟩, hact₁⟩ : ∃ r, c.act config.storage unicode
      { state₁ with now := env₁.clock n } (env₁.documents n c.phase) = some r := by
    apply exists_act_documents hopen
    · rintro ⟨dto, hphase⟩
      have hstarts : c.phase.starts = true := by
        rw [hphase]
        rfl
      rw [(h₁.opened hstarts).1]
      apply hfresh₁.document
    · rintro ⟨current, declaration, hphase⟩
      have hstarts : c.phase.starts = true := by
        rw [hphase]
        rfl
      exact (h₁.opened hstarts).2
  rw [← haction, hact₁] at hsame₁
  obtain ⟨⟨s₂, phase₂⟩, hact₂, hseen⟩ := Option.map_eq_some_iff.mp hsame₁
  obtain ⟨hs, rfl⟩ := Prod.mk.inj hseen
  refine ⟨(s₁, { c with phase := phase₂ }), (s₂, { c with phase := phase₂ }), ?_, ?_,
    ⟨h₁.step hact₁, h₂.step hact₂, hs.symm, rfl⟩, ?_⟩
  · simp [documentsProgram, hact₁]
  · rw [haction] at hact₂
    simp [documentsProgram, hact₂]
  · apply Documents.Call.rank_of_act hact₁

/-! ### Requests for text extraction -/

/-- A call of the user for text extraction: it has changed nothing before it commits a job of the
user, which has the id that is generated. -/
structure OcrCall (env : Environment) (t : Tables) (userId : ℕ)
    (r : OcrService.State × OcrService.Call) : Prop where
  user : r.2.userId = userId
  calls : r.1.calls.rows = []
  opened : ocrEnded r.2.phase = false → r.1.worker.db = t.toDatabase
  owns : r.2.phase.owns = true → t.ownerOf r.2.documentId = some userId
  inserted : ∀ id language createdAt, r.2.phase = .inserted id language createdAt → id = env.id
  others : ∀ other ≠ userId, r.1.worker.db.only other = t.toDatabase.only other

theorem ocrCall_start (documentId : ℕ) (operation : OcrService.Operation) :
  OcrCall env t userId (ocrStart env t userId documentId operation)
  := by
  constructor
  · rfl
  · rfl
  · intro _
    rfl
  · intro howns
    cases howns
  · intro id language createdAt hphase
    cases hphase
  · intro other _
    rfl

section

variable {s : OcrService.State} {c : OcrService.Call} {e : OcrService.Effect}

theorem opened_of_owns {phase : OcrService.Phase} (h : phase.owns = true) :
  ocrEnded phase = false
  := by
  cases phase with
  | called | returned | rejected => cases h
  | _ => rfl

/-- The job a call commits can be created, and is one more of the rows of the user. -/
theorem OcrCall.commit (unicode : Unicode) (hfresh : env.Fresh t)
    (h : OcrCall env t userId (s, c)) {id createdAt : ℕ} {language : JsString}
    (hphase : c.phase = .inserted id language createdAt) :
  ∃ ocrJobs, t.ocrJobs.create
      (OcrService.createdJob config.ocr id c.userId c.documentId language createdAt) = some ocrJobs
    ∧ committed config unicode s.worker
        (some (.createJob id c.userId c.documentId language createdAt))
      = some { s.worker with db := { t.toDatabase with ocrJobs } }
    ∧ t.ownerOf c.documentId = some userId
  := by
  have howns : c.phase.owns = true := by
    rw [hphase]
    rfl
  have hdb : s.worker.db = t.toDatabase := h.opened (opened_of_owns howns)
  have hid : id = env.id := h.inserted id language createdAt hphase
  obtain ⟨ocrJobs, hcreate⟩ := Table.exists_create
    (r := OcrService.createdJob config.ocr id c.userId c.documentId language createdAt)
    (hid ▸ hfresh.ocrJob)
  refine ⟨ocrJobs, hcreate, ?_, h.owns howns⟩
  change (s.worker.db.ocrJobs.create _).bind _ = _
  rw [hdb, hcreate]
  rfl

theorem OcrCall.step (unicode : Unicode) (ht : t.Owned) (hfresh : env.Fresh t)
    (h : OcrCall env t userId (s, c)) (hopen : ocrEnded c.phase = false) {n : ℕ}
    (hact : c.act config.ocr hashtext s (env.ocr n c.phase) = some e) :
  ∃ worker, committed config unicode s.worker e.commit = some worker
    ∧ OcrCall env t userId ({ s with worker }, { c with phase := e.phase })
  := by
  have hdb : s.worker.db = t.toDatabase := h.opened hopen
  obtain ⟨phase, commit⟩ := e
  have howns : phase.owns = true → t.ownerOf c.documentId = some userId := by
    intro hphase
    have howner := OcrService.owner_of_act (fun howns => ?_) hact hphase
    · rw [hdb, show c.userId = userId from h.user] at howner
      apply howner
    · rw [hdb, show c.userId = userId from h.user]
      apply h.owns howns
  cases commit with
  | none =>
      refine ⟨s.worker, rfl, h.user, h.calls, fun _ => hdb, howns, ?_, h.others⟩
      rintro id language createdAt rfl
      cases OcrService.Call.act_acts hact with
      | inserts hphase =>
          rw [hphase] at hact
          unfold Environment.ocr at hact
          split at hact
          · simp [OcrService.Call.act, hphase, OcrService.goTo] at hact
          · simp only [OcrService.Call.act, hphase, OcrService.goTo] at hact
            cases hact
            rfl
      | owns _ hphase =>
          rcases hphase with ⟨dto, hphase⟩ | hphase <;> cases hphase
      | finds _ _ hphase =>
          rcases hphase with hphase | hphase | hphase <;> cases hphase
  | some a =>
      obtain ⟨-, ⟨result, rfl⟩, id, language, createdAt, hphase, rfl⟩ :=
        OcrService.commit_of_act hact
      obtain ⟨ocrJobs, hcreate, hworker, howner⟩ := h.commit unicode hfresh hphase
      refine ⟨_, hworker, h.user, h.calls, by rintro ⟨⟩, howns, ?_, ?_⟩
      · intro id language createdAt hphase'
        cases hphase'
      intro other hne
      apply Database.only_create_of_ne ht.database hcreate
      intro hother
      apply hne
      exact Option.some.inj (hother.symm.trans howner)

end

/-- Calls of the user for text extraction that look alike to the user. -/
structure OcrAlike (env₁ env₂ : Environment) (t₁ t₂ : Tables) (userId : ℕ)
    (r₁ r₂ : OcrService.State × OcrService.Call) : Prop where
  first : OcrCall env₁ t₁ userId r₁
  second : OcrCall env₂ t₂ userId r₂
  state : r₁.1.only userId = r₂.1.only userId
  call : r₁.2 = r₂.2

/-- Calls for text extraction that look alike go on alike. -/
theorem OcrAlike.next (ht₁ : t₁.Owned) (ht₂ : t₂.Owned)
    (henv : env₁.only userId = env₂.only userId) (hfresh₁ : env₁.Fresh t₁) (hfresh₂ : env₂.Fresh t₂)
    {r₁ r₂ : OcrService.State × OcrService.Call} (h : OcrAlike env₁ env₂ t₁ t₂ userId r₁ r₂)
    (hopen : ocrEnded r₁.2.phase = false) (n : ℕ) :
  ∃ r₁' r₂', (ocrProgram config unicode hashtext env₁).next n r₁ = some r₁'
    ∧ (ocrProgram config unicode hashtext env₂).next n r₂ = some r₂'
    ∧ OcrAlike env₁ env₂ t₁ t₂ userId r₁' r₂' ∧ r₁'.2.phase.rank < r₁.2.phase.rank
  := by
  obtain ⟨state₁, c⟩ := r₁
  obtain ⟨state₂, c₂⟩ := r₂
  obtain ⟨h₁, h₂, hstate, hcall⟩ := h
  obtain rfl : c = c₂ := hcall
  have hdb₁ : state₁.worker.db = t₁.toDatabase := h₁.opened hopen
  have hdb₂ : state₂.worker.db = t₂.toDatabase := h₂.opened hopen
  have haction : env₁.ocr n c.phase = env₂.ocr n c.phase :=
    congrArg (fun env => env.ocr n c.phase) henv
  have honly : ∀ {env : Environment} {t : Tables} {state : OcrService.State}, t.Owned →
      state.worker.db = t.toDatabase → OcrCall env t userId (state, c) →
      c.act config.ocr hashtext (state.only userId) (env₁.ocr n c.phase)
        = c.act config.ocr hashtext state (env₁.ocr n c.phase) := by
    intro env t state ht hdb hcall
    obtain rfl := hcall.user
    apply OcrService.Call.act_only
    · rw [hdb]
      apply ht.database
    · rw [hdb]
      apply hcall.owns
  obtain ⟨e, hact₁⟩ : ∃ e, c.act config.ocr hashtext state₁ (env₁.ocr n c.phase) = some e :=
    exists_act_ocr hopen h₁.calls
  have hact₂ : c.act config.ocr hashtext state₂ (env₂.ocr n c.phase) = some e := by
    rw [← haction, ← honly ht₂ hdb₂ h₂, ← hstate, honly ht₁ hdb₁ h₁, hact₁]
  obtain ⟨worker₁, hworker₁, hnext₁⟩ := h₁.step unicode ht₁ hfresh₁ hopen hact₁
  obtain ⟨worker₂, hworker₂, hnext₂⟩ := h₂.step unicode ht₂ hfresh₂ hopen hact₂
  have hworkers : OcrService.State.only { state₁ with worker := worker₁ } userId
      = OcrService.State.only { state₂ with worker := worker₂ } userId := by
    obtain ⟨phase, commit⟩ := e
    cases commit with
    | none =>
        obtain rfl := Option.some.inj hworker₁
        obtain rfl := Option.some.inj hworker₂
        exact hstate
    | some a =>
        obtain ⟨-, -, id, language, createdAt, hphase, rfl⟩ := OcrService.commit_of_act hact₁
        obtain ⟨ocrJobs₁, hcreate₁, hcommit₁, howner₁⟩ := h₁.commit unicode hfresh₁ hphase
        obtain ⟨ocrJobs₂, hcreate₂, hcommit₂, howner₂⟩ := h₂.commit unicode hfresh₂ hphase
        obtain rfl := Option.some.inj (hworker₁.symm.trans hcommit₁)
        obtain rfl := Option.some.inj (hworker₂.symm.trans hcommit₂)
        have hnew₁ := Database.create_only ht₁.database howner₁ (Table.find_of_create hcreate₁)
        have hnew₂ := Database.create_only ht₂.database howner₂ (Table.find_of_create hcreate₂)
        have hdb : t₁.toDatabase.only userId = t₂.toDatabase.only userId := by
          rw [← hdb₁, ← hdb₂]
          exact congrArg (fun state : OcrService.State => state.worker.db) hstate
        rw [hdb, hcreate₁, Option.map_some] at hnew₁
        rw [hnew₁, hcreate₂, Option.map_some] at hnew₂
        exact congrArg₂ (fun (state : OcrService.State) db =>
          { state with worker := { state.worker with db } }) hstate (Option.some.inj hnew₂)
  refine ⟨_, _, ?_, ?_, ⟨hnext₁, hnext₂, hworkers, rfl⟩, ?_⟩
  · simp [ocrProgram, hact₁, hworker₁]
  · simp [ocrProgram, hact₂, hworker₂]
  · apply OcrService.Call.rank_of_act hact₁

/-! ### Queries -/

theorem list_folders_restrict (folders : Table Folder.id) (parentId : Option (Option ℕ)) :
  FoldersService.list texts (folders.restrict (Folder.isOf userId)) userId parentId
    = FoldersService.list texts folders userId parentId
  := by
  have hfound : (folders.restrict (Folder.isOf userId)).rows.filter (fun folder =>
        folder.userId = userId && parentId.all fun parentId => folder.parentId = parentId)
      = folders.rows.filter fun folder =>
        folder.userId = userId && parentId.all fun parentId => folder.parentId = parentId := by
    apply Table.filter_restrict
    intro folder _ hlisted
    exact (Bool.and_eq_true_iff.mp hlisted).1
  simp only [FoldersService.list, Folders.getOwned_restrict, hfound]

theorem list_documents_restrict (folders : Table Folder.id) (documents : Table Document.id)
    (query : ListDocumentsQueryDto) :
  DocumentsService.list texts (folders.restrict (Folder.isOf userId))
      (documents.restrict (Document.isOf userId)) userId query
    = DocumentsService.list texts folders documents userId query
  := by
  have hfound : (documents.restrict (Document.isOf userId)).rows.filter
        (DocumentsService.listed texts userId query)
      = documents.rows.filter (DocumentsService.listed texts userId query) := by
    apply Table.filter_restrict
    intro document _ hlisted
    simp only [DocumentsService.listed, Bool.and_eq_true] at hlisted
    exact hlisted.1.1.1.1
  simp only [DocumentsService.list, Folders.getOwned_restrict, hfound]

section

variable {db : Database} {documentId : ℕ}

/-- The owner of a document that the user has looked up. -/
theorem ownerOf_of_getOwned {document : Document}
    (h : DocumentsService.getOwned db.documents userId documentId = .ok document) :
  db.ownerOf documentId = some userId
  := by
  obtain ⟨hfind, huser, -⟩ := DocumentsService.getOwned_eq_ok_iff.mp h
  rw [Database.ownerOf, hfind, Option.map_some, huser]

theorem latestForDocument_only (howner : db.ownerOf documentId = some userId) :
  OcrJobService.latestForDocument (db.only userId) documentId userId
    = OcrJobService.latestForDocument db documentId userId
  := by
  unfold OcrJobService.latestForDocument
  rw [Database.jobsOf_only howner]

theorem findOwned_only (howner : db.ownerOf documentId = some userId) (jobId : ℕ) :
  OcrJobService.findOwned (db.only userId) jobId documentId userId
    = OcrJobService.findOwned db jobId documentId userId
  := by
  unfold OcrJobService.findOwned
  rw [show (db.only userId).ocrJobs = db.ocrJobs.restrict _ from rfl, Table.find_restrict]
  cases db.ocrJobs.find jobId with
  | none => rfl
  | some job =>
      by_cases hdocument : job.documentId = documentId
      · simp [Option.filter, hdocument, howner]
      · by_cases hjob : db.ownerOf job.documentId = some userId <;>
          simp [Option.filter, hdocument, hjob]

/-- The pages of a job that is looked up for a document. -/
theorem pages_only {found : Option OcrJob} (howner : db.ownerOf documentId = some userId)
    (hfound : (∃ jobId, found = OcrJobService.findOwned db jobId documentId userId)
      ∨ found = OcrJobService.latestForDocument db documentId userId)
    {job : OcrJob} (hjob : found = some job) (query : OcrResultsQueryDto) :
  OcrJobService.pages (db.only userId) job.id query = OcrJobService.pages db job.id query
  := by
  have hthere : db.ocrJobs.find job.id = some job ∧ job.documentId = documentId := by
    rcases hfound with ⟨jobId, rfl⟩ | rfl
    · obtain ⟨hfind, howned⟩ := Option.filter_eq_some_iff.mp hjob
      simp only [Bool.and_eq_true, decide_eq_true_eq] at howned
      obtain rfl := Table.key_of_find hfind
      exact ⟨hfind, howned.1⟩
    · obtain ⟨hjob, -⟩ := List.mem_filter.mp (List.argmax_mem hjob)
      obtain ⟨hjob, hdocument⟩ := List.mem_filter.mp hjob
      exact ⟨Table.mem_rows_iff.mp hjob, of_decide_eq_true hdocument⟩
  unfold OcrJobService.pages
  rw [Database.pagesOf_only hthere.1 (hthere.2 ▸ howner)]

theorem status_only :
  OcrService.status (db.only userId) userId documentId = OcrService.status db userId documentId
  := by
  unfold OcrService.status
  rw [show (db.only userId).documents = db.documents.restrict (Document.isOf userId) from rfl,
    Documents.getOwned_restrict]
  cases howned : DocumentsService.getOwned db.documents userId documentId with
  | error error => rfl
  | ok document => rw [latestForDocument_only (ownerOf_of_getOwned howned)]

theorem results_only (query : OcrResultsQueryDto) :
  OcrService.results (db.only userId) userId documentId query
    = OcrService.results db userId documentId query
  := by
  unfold OcrService.results
  rw [show (db.only userId).documents = db.documents.restrict (Document.isOf userId) from rfl,
    Documents.getOwned_restrict]
  cases howned : DocumentsService.getOwned db.documents userId documentId with
  | error error => rfl
  | ok document =>
      have howner := ownerOf_of_getOwned howned
      simp only [latestForDocument_only howner, findOwned_only howner]
      cases query.jobId with
      | some jobId =>
          simp only
          cases hfound : OcrJobService.findOwned db jobId documentId userId with
          | none => rfl
          | some job => simp only [pages_only howner (.inl ⟨jobId, rfl⟩) hfound]
      | none =>
          simp only
          cases hfound : OcrJobService.latestForDocument db documentId userId with
          | none => rfl
          | some job => simp only [pages_only howner (.inr rfl) hfound]

end

/-! ### Rows that refer to rows of their user -/

theorem confined_stay {s : OcrService.State} (h : OcrService.Confined s)
    {documents : Table Document.id} (hstay : DocumentsStay s.worker.db.documents documents) :
  OcrService.Confined { s with worker := { s.worker with db := { s.worker.db with documents } } }
  := by
  refine ⟨h.db.stay hstay, h.processes, ?_⟩
  intro c hc howns
  apply ownerOf_of_stay hstay
  apply h.calls c hc howns

section

variable {s s' : State config}

theorem confined_step {label : Label} (h : Invariant hashtext s) (hconfined : OcrService.Confined s.ocr)
    (hstep : (system config unicode hashtext).step s label = some s') :
  OcrService.Confined s'.ocr
  := by
  obtain ⟨-, hstay⟩ := h.step hstep
  change Backend.step config unicode hashtext s label = some s' at hstep
  cases label with
  | tick ms =>
      obtain rfl := Option.some.inj hstep
      exact ⟨hconfined.db, hconfined.processes, hconfined.calls⟩
  | folders a =>
      simp only [Backend.step] at hstep
      split at hstep
      · obtain ⟨part, -, hstep⟩ := Option.bind_eq_some_iff.mp hstep
        obtain rfl := Option.some.inj hstep
        apply confined_stay hconfined hstay
      · cases hstep
  | documents a =>
      simp only [Backend.step] at hstep
      split at hstep
      · obtain ⟨part, -, hstep⟩ := Option.bind_eq_some_iff.mp hstep
        obtain rfl := Option.some.inj hstep
        apply confined_stay hconfined hstay
      · cases hstep
  | ocr a =>
      simp only [Backend.step] at hstep
      split at hstep
      · obtain ⟨part, hpart, hstep⟩ := Option.bind_eq_some_iff.mp hstep
        obtain rfl := Option.some.inj hstep
        obtain ⟨hdb, hprocesses, hcalls⟩ := (hconfined.step hpart).1
        exact ⟨hdb, hprocesses, hcalls⟩
      · cases hstep

/-- In every run rows refer to rows of their user. -/
theorem owned_of_run {ts : List (Transition (State config) Label)}
    (hinit : (system config unicode hashtext).init s)
    (hrun : (system config unicode hashtext).Run s ts s') :
  s'.tables.Owned
  := by
  have h : Invariant hashtext s' ∧ OcrService.Confined s'.ocr := by
    apply hrun.invariant (I := fun s => Invariant hashtext s ∧ OcrService.Confined s.ocr)
      ⟨invariant_init hinit, OcrService.confined_init hinit.2.2.1⟩
    rintro t _ hstep ⟨hinvariant, hconfined⟩
    exact ⟨(hinvariant.step hstep).1, confined_step hinvariant hconfined hstep⟩
  refine ⟨h.1.hierarchy.hierarchy, ?_, h.2.db⟩
  intro document hdocument
  apply (h.1.documents document hdocument).mono
  intro userId folderId hholds
  exact hholds.2

end

/-! ### Operations -/

/-- An operation of the user on either tables: it answers alike, leaves the user with the same rows,
and leaves the rows of other users as they are. -/
def Isolates (userId : ℕ) (t₁ t₂ : Tables) (p₁ p₂ : Option (Response × Tables)) : Prop :=
  ∃ response t₁' t₂', p₁ = some (response, t₁') ∧ p₂ = some (response, t₂')
    ∧ t₁'.only userId = t₂'.only userId
    ∧ (∀ other ≠ userId, t₁'.only other = t₁.only other)
    ∧ ∀ other ≠ userId, t₂'.only other = t₂.only other

theorem isolates_query {response₁ response₂ : Response} (hsame : t₁.only userId = t₂.only userId)
    (henv : env₁.only userId = env₂.only userId) (hresponse : response₁ = response₂) :
  Isolates userId t₁ t₂ (some (answer env₁ response₁, t₁)) (some (answer env₂ response₂, t₂))
  := by
  have hthrows : env₁.throws = env₂.throws := congrArg (fun env => env.throws) henv
  refine ⟨answer env₁ response₁, t₁, t₂, rfl, ?_, hsame, fun _ _ => rfl, fun _ _ => rfl⟩
  rw [answer, answer, hthrows, hresponse]

/-- What a call of the user on folders or documents makes of the tables. -/
structure Changes (userId : ℕ) (t t' : Tables) : Prop where
  ocrJobs : t'.ocrJobs = t.ocrJobs
  ocrPages : t'.ocrPages = t.ocrPages
  stay : DocumentsStay t.documents t'.documents
  folders : ∀ other ≠ userId, t'.folders.restrict (Folder.isOf other)
    = t.folders.restrict (Folder.isOf other)
  documents : ∀ other ≠ userId, t'.documents.restrict (Document.isOf other)
    = t.documents.restrict (Document.isOf other)
  objects : ∀ other ≠ userId, t'.objects.restrict (StoredObject.isOf other)
    = t.objects.restrict (StoredObject.isOf other)

theorem Changes.only_eq {t' : Tables} (ht : t.Owned) (h : Changes userId t t') (other : ℕ) :
  t'.only other
    = { t.only other with
        documents := t'.documents.restrict (Document.isOf other)
        folders := t'.folders.restrict (Folder.isOf other)
        objects := t'.objects.restrict (StoredObject.isOf other) }
  := by
  have hdb := Database.only_of_stay ht.database h.stay other
  rw [← h.ocrJobs, ← h.ocrPages] at hdb
  unfold Tables.only
  rw [hdb]

theorem Changes.only_of_ne {t' : Tables} (ht : t.Owned) (h : Changes userId t t') {other : ℕ}
    (hne : other ≠ userId) :
  t'.only other = t.only other
  := by
  rw [h.only_eq ht, h.folders other hne, h.documents other hne, h.objects other hne]
  rfl

/-- Calls of the user on folders or documents isolate the user when they end with the same rows of
the user. -/
theorem isolates_of_changes {t₁' t₂' : Tables} {response : Response} (ht₁ : t₁.Owned) (ht₂ : t₂.Owned)
    (hsame : t₁.only userId = t₂.only userId) (h₁ : Changes userId t₁ t₁')
    (h₂ : Changes userId t₂ t₂')
    (hfolders : t₁'.folders.restrict (Folder.isOf userId) = t₂'.folders.restrict (Folder.isOf userId))
    (hdocuments : t₁'.documents.restrict (Document.isOf userId)
      = t₂'.documents.restrict (Document.isOf userId))
    (hobjects : t₁'.objects.restrict (StoredObject.isOf userId)
      = t₂'.objects.restrict (StoredObject.isOf userId)) :
  Isolates userId t₁ t₂ (some (response, t₁')) (some (response, t₂'))
  := by
  refine ⟨response, t₁', t₂', rfl, rfl, ?_, ?_, ?_⟩
  · rw [h₁.only_eq ht₁, h₂.only_eq ht₂, hsame, hfolders, hdocuments, hobjects]
  · intro other hne
    apply h₁.only_of_ne ht₁ hne
  · intro other hne
    apply h₂.only_of_ne ht₂ hne

section

variable (unicode hashtext texts)

theorem isolates_folders (ht₁ : t₁.Owned) (ht₂ : t₂.Owned) (hsame : t₁.only userId = t₂.only userId)
    (henv : env₁.only userId = env₂.only userId) (hfresh₁ : env₁.Fresh t₁) (hfresh₂ : env₂.Fresh t₂)
    (operation : Folders.Operation) :
  Isolates userId t₁ t₂
    (perform config unicode hashtext texts env₁ t₁ userId (.folders operation))
    (perform config unicode hashtext texts env₂ t₂ userId (.folders operation))
  := by
  have hclock : env₁.clock = env₂.clock := congrArg (fun env => env.clock) henv
  have hfolders : t₁.folders.restrict (Folder.isOf userId) = t₂.folders.restrict (Folder.isOf userId) :=
    congrArg Tables.folders hsame
  have hdocuments : t₁.documents.restrict (Document.isOf userId)
      = t₂.documents.restrict (Document.isOf userId) := congrArg (fun t => t.documents) hsame
  have hobjects : t₁.objects.restrict (StoredObject.isOf userId)
      = t₂.objects.restrict (StoredObject.isOf userId) := congrArg Tables.objects hsame
  have hstart : FoldersAlike t₁ t₂ userId (foldersStart env₁ t₁ userId operation)
      (foldersStart env₂ t₂ userId operation) := by
    refine ⟨foldersCall_start operation, foldersCall_start operation, ?_, rfl⟩
    simp only [foldersStart, Folders.Store.only, hclock, hfolders, hdocuments]
  obtain ⟨r₁, r₂, hr₁, hr₂, halike⟩ := Program.exists_complete_of_related
    (P := foldersProgram config env₁) (Q := foldersProgram config env₂) (n := MAX_STATEMENTS)
    (FoldersAlike t₁ t₂ userId) (fun r => r.2.phase.rank)
    (fun h => congrArg (fun c : Folders.Call => foldersEnded c.phase) h.call)
    (fun n h hopen => h.next ht₁ ht₂ henv hfresh₁ hfresh₂ hopen n) hstart (show 5 ≤ 10 by decide)
  have hchanges : ∀ {t : Tables} {r : Folders.Store × Folders.Call}, FoldersCall t userId r →
      Changes userId t { t with folders := r.1.folders, documents := r.1.documents } := by
    intro t r h
    exact ⟨rfl, rfl, h.stay, h.folders, h.documents, fun _ _ => rfl⟩
  rw [perform, perform, hr₁, hr₂]
  change Isolates userId t₁ t₂ (some (foldersResponse r₁.2.phase, _))
    (some (foldersResponse r₂.2.phase, _))
  rw [halike.call]
  exact isolates_of_changes ht₁ ht₂ hsame (hchanges halike.first) (hchanges halike.second)
    (congrArg Folders.Store.folders halike.store) (congrArg Folders.Store.documents halike.store)
    hobjects

theorem isolates_documents (ht₁ : t₁.Owned) (ht₂ : t₂.Owned)
    (hsame : t₁.only userId = t₂.only userId) (henv : env₁.only userId = env₂.only userId)
    (hfresh₁ : env₁.Fresh t₁) (hfresh₂ : env₂.Fresh t₂) (operation : Documents.Operation) :
  Isolates userId t₁ t₂
    (perform config unicode hashtext texts env₁ t₁ userId (.documents operation))
    (perform config unicode hashtext texts env₂ t₂ userId (.documents operation))
  := by
  have hclock : env₁.clock = env₂.clock := congrArg (fun env => env.clock) henv
  have hfolders : t₁.folders.restrict (Folder.isOf userId) = t₂.folders.restrict (Folder.isOf userId) :=
    congrArg Tables.folders hsame
  have hdocuments : t₁.documents.restrict (Document.isOf userId)
      = t₂.documents.restrict (Document.isOf userId) := congrArg (fun t => t.documents) hsame
  have hobjects : t₁.objects.restrict (StoredObject.isOf userId)
      = t₂.objects.restrict (StoredObject.isOf userId) := congrArg Tables.objects hsame
  have hstart : DocumentsAlike t₁ t₂ userId
      (documentsStart config unicode env₁ t₁ userId operation)
      (documentsStart config unicode env₂ t₂ userId operation) := by
    refine ⟨documentsCall_start ht₁ operation, documentsCall_start ht₂ operation, ?_, ?_⟩
    · simp only [documentsStart, Documents.State.only, hclock, hfolders, hdocuments, hobjects]
    · simp only [documentsStart, hclock]
  have hrank : (documentsStart config unicode env₁ t₁ userId operation).2.phase.rank
      ≤ MAX_STATEMENTS := by
    apply le_trans (Documents.Operation.rank_start_le _ operation)
    decide
  obtain ⟨r₁, r₂, hr₁, hr₂, halike⟩ := Program.exists_complete_of_related
    (P := documentsProgram config unicode env₁) (Q := documentsProgram config unicode env₂)
    (n := MAX_STATEMENTS) (DocumentsAlike t₁ t₂ userId) (fun r => r.2.phase.rank)
    (fun h => congrArg (fun c : Documents.Call config.documents => documentsEnded c.phase) h.call)
    (fun n h hopen => h.next henv hfresh₁ hfresh₂ hopen n) hstart hrank
  have hchanges : ∀ {t : Tables}
      {r : Documents.State config.documents × Documents.Call config.documents},
      DocumentsCall t userId r → Changes userId t
        { t with documents := r.1.documents, folders := r.1.folders, objects := r.1.objects } := by
    intro t r h
    refine ⟨rfl, rfl, h.stay, ?_, h.documents, h.objects⟩
    intro other _
    rw [h.folders]
  rw [perform, perform, hr₁, hr₂]
  change Isolates userId t₁ t₂ (some (documentsResponse r₁.2.phase, _))
    (some (documentsResponse r₂.2.phase, _))
  rw [halike.call]
  exact isolates_of_changes ht₁ ht₂ hsame (hchanges halike.first) (hchanges halike.second)
    (congrArg (fun s => s.folders) halike.state) (congrArg (fun s => s.documents) halike.state)
    (congrArg (fun s => s.objects) halike.state)

theorem isolates_ocr (ht₁ : t₁.Owned) (ht₂ : t₂.Owned) (hsame : t₁.only userId = t₂.only userId)
    (henv : env₁.only userId = env₂.only userId) (hfresh₁ : env₁.Fresh t₁) (hfresh₂ : env₂.Fresh t₂)
    (documentId : ℕ) (operation : OcrService.Operation) :
  Isolates userId t₁ t₂
    (perform config unicode hashtext texts env₁ t₁ userId (.ocr documentId operation))
    (perform config unicode hashtext texts env₂ t₂ userId (.ocr documentId operation))
  := by
  have hclock : env₁.clock = env₂.clock := congrArg (fun env => env.clock) henv
  have hdb : t₁.toDatabase.only userId = t₂.toDatabase.only userId :=
    congrArg Tables.toDatabase hsame
  have hfolders : t₁.folders.restrict (Folder.isOf userId) = t₂.folders.restrict (Folder.isOf userId) :=
    congrArg Tables.folders hsame
  have hobjects : t₁.objects.restrict (StoredObject.isOf userId)
      = t₂.objects.restrict (StoredObject.isOf userId) := congrArg Tables.objects hsame
  have hstart : OcrAlike env₁ env₂ t₁ t₂ userId (ocrStart env₁ t₁ userId documentId operation)
      (ocrStart env₂ t₂ userId documentId operation) := by
    refine ⟨ocrCall_start documentId operation, ocrCall_start documentId operation, ?_, rfl⟩
    simp only [ocrStart, OcrService.State.only, hclock, hdb]
  obtain ⟨r₁, r₂, hr₁, hr₂, halike⟩ := Program.exists_complete_of_related
    (P := ocrProgram config unicode hashtext env₁) (Q := ocrProgram config unicode hashtext env₂)
    (n := MAX_STATEMENTS) (OcrAlike env₁ env₂ t₁ t₂ userId) (fun r => r.2.phase.rank)
    (fun h => congrArg (fun c : OcrService.Call => ocrEnded c.phase) h.call)
    (fun n h hopen => h.next ht₁ ht₂ henv hfresh₁ hfresh₂ hopen n) hstart (show 9 ≤ 10 by decide)
  have hworker : r₁.1.worker.db.only userId = r₂.1.worker.db.only userId :=
    congrArg (fun s => s.worker.db) halike.state
  have honly : ∀ (t : Tables) (db : Database) (other : ℕ),
      ({ t with toDatabase := db } : Tables).only other
        = ⟨db.only other, t.folders.restrict (Folder.isOf other),
          t.objects.restrict (StoredObject.isOf other)⟩ := fun _ _ _ => rfl
  refine ⟨ocrResponse r₁.2.phase, { t₁ with toDatabase := r₁.1.worker.db },
    { t₂ with toDatabase := r₂.1.worker.db }, ?_, ?_, ?_, ?_, ?_⟩
  · rw [perform, hr₁]
    rfl
  · rw [perform, hr₂, halike.call]
    rfl
  · rw [honly, honly, hworker, hfolders, hobjects]
  · intro other hne
    rw [honly, halike.first.others other hne]
    rfl
  · intro other hne
    rw [honly, halike.second.others other hne]
    rfl

end

/-- In reachable states in which a user has the same rows, every operation of the user answers alike
and leaves the user with the same rows, provided that its environment is the same as far as it
concerns the user and the id it generates is new; the rows of other users stay as they are. -/
theorem users_isolated (texts : Texts) {init₁ init₂ s₁ s₂ : State config}
    {ts₁ ts₂ : List (Transition (State config) Label)}
    (hinit₁ : (system config unicode hashtext).init init₁)
    (hrun₁ : (system config unicode hashtext).Run init₁ ts₁ s₁)
    (hinit₂ : (system config unicode hashtext).init init₂)
    (hrun₂ : (system config unicode hashtext).Run init₂ ts₂ s₂)
    (hsame : s₁.tables.only userId = s₂.tables.only userId)
    (henv : env₁.only userId = env₂.only userId) (hfresh₁ : env₁.Fresh s₁.tables)
    (hfresh₂ : env₂.Fresh s₂.tables) (operation : Operation) :
  ∃ response t₁ t₂,
    perform config unicode hashtext texts env₁ s₁.tables userId operation = some (response, t₁)
    ∧ perform config unicode hashtext texts env₂ s₂.tables userId operation = some (response, t₂)
    ∧ t₁.only userId = t₂.only userId
    ∧ (∀ other ≠ userId, t₁.only other = s₁.tables.only other)
    ∧ ∀ other ≠ userId, t₂.only other = s₂.tables.only other
  := by
  have ht₁ := owned_of_run hinit₁ hrun₁
  have ht₂ := owned_of_run hinit₂ hrun₂
  have hfolders : s₁.tables.folders.restrict (Folder.isOf userId)
      = s₂.tables.folders.restrict (Folder.isOf userId) := congrArg Tables.folders hsame
  have hdocuments : s₁.tables.documents.restrict (Document.isOf userId)
      = s₂.tables.documents.restrict (Document.isOf userId) :=
    congrArg (fun t : Tables => t.documents) hsame
  have hdb : s₁.tables.toDatabase.only userId = s₂.tables.toDatabase.only userId :=
    congrArg Tables.toDatabase hsame
  have hclock : env₁.clock = env₂.clock := congrArg (fun env => env.clock) henv
  cases operation with
  | folders operation =>
      apply isolates_folders unicode hashtext texts ht₁ ht₂ hsame henv hfresh₁ hfresh₂
  | documents operation =>
      apply isolates_documents unicode hashtext texts ht₁ ht₂ hsame henv hfresh₁ hfresh₂
  | ocr documentId operation =>
      apply isolates_ocr unicode hashtext texts ht₁ ht₂ hsame henv hfresh₁ hfresh₂
  | getFolder folderId =>
      apply isolates_query hsame henv
      rw [← Folders.getOwned_restrict s₁.tables.folders, hfolders, Folders.getOwned_restrict]
  | listFolders parentId =>
      apply isolates_query hsame henv
      rw [← list_folders_restrict s₁.tables.folders, hfolders, list_folders_restrict]
  | getDocument documentId =>
      apply isolates_query hsame henv
      rw [← Documents.getOwned_restrict s₁.tables.documents, hdocuments, Documents.getOwned_restrict]
  | listDocuments query =>
      apply isolates_query hsame henv
      rw [← list_documents_restrict s₁.tables.folders, hfolders, hdocuments, list_documents_restrict]
  | createDownloadUrl documentId =>
      apply isolates_query hsame henv
      unfold DocumentFilesService.createDownloadUrl
      rw [← Documents.getOwned_restrict s₁.tables.documents, hdocuments,
        Documents.getOwned_restrict, hclock]
  | ocrStatus documentId =>
      apply isolates_query hsame henv
      rw [← status_only, hdb, status_only]
  | ocrResults documentId query =>
      apply isolates_query hsame henv
      rw [← results_only, hdb, results_only]

/-! A user has a folder, in one of the states another user has one too.  The user tries to create a
document in a folder that is either not there or not the user's. -/

def ownFolder : List Label :=
  [.folders (.call 1 7 (.create ⟨js "Inbox", none⟩)), .folders (.step 1 .lock),
    .folders (.step 1 (.insert 1))]

def foreignFolder : List Label :=
  [.folders (.call 2 8 (.create ⟨js "Private", none⟩)), .folders (.step 2 .lock),
    .folders (.step 2 (.insert 2))]

/-- The creation of a document in the folder `2`. -/
def createForeign (t : Tables) : Option (Response × Tables) :=
  perform sampleConfig asciiUnicode id sampleTexts sampleEnvironment t 7
    (.documents (.create ⟨js "First", none, some 2⟩))

theorem Tables.eq_of_rows (hjobs : t₁.ocrJobs.rows = t₂.ocrJobs.rows)
    (hpages : t₁.ocrPages.rows = t₂.ocrPages.rows)
    (hdocuments : t₁.documents.rows = t₂.documents.rows)
    (hfolders : t₁.folders.rows = t₂.folders.rows) (hobjects : t₁.objects.rows = t₂.objects.rows) :
  t₁ = t₂
  := by
  obtain ⟨⟨ocrJobs, ocrPages, documents⟩, folders, objects⟩ := t₁
  obtain rfl := Table.eq_of_rows hjobs
  obtain rfl := Table.eq_of_rows hpages
  obtain rfl := Table.eq_of_rows hdocuments
  obtain rfl := Table.eq_of_rows hfolders
  obtain rfl := Table.eq_of_rows hobjects
  rfl

theorem users_isolated_of_foreignFolder :
  ∃ s₁ s₂ : State sampleConfig,
    (system sampleConfig asciiUnicode id).execute (fun _ => true) sampleState ownFolder = some s₁
    ∧ (system sampleConfig asciiUnicode id).execute (fun _ => true) s₁ foreignFolder = some s₂
    ∧ s₁.tables.folders.find 2 = none ∧ s₂.tables.folders.find 2 ≠ none
    ∧ ∃ t₁ t₂, createForeign s₁.tables = some (.exception folderNotFound, t₁)
      ∧ createForeign s₂.tables = some (.exception folderNotFound, t₂)
      ∧ t₁.only 7 = t₂.only 7
      ∧ (∀ other ≠ 7, t₁.only other = s₁.tables.only other)
      ∧ ∀ other ≠ 7, t₂.only other = s₂.tables.only other
  := by
  have hsome : ((system sampleConfig asciiUnicode id).execute (fun _ => true) sampleState
      ownFolder).any (fun s₁ => s₁.tables.folders.find 2 = none
        && (createForeign s₁.tables).any (fun r => r.1 = .exception folderNotFound)
        && ((system sampleConfig asciiUnicode id).execute (fun _ => true) s₁ foreignFolder).any
          fun s₂ => s₂.tables.folders.find 2 ≠ none
            && ((s₁.tables.only 7).ocrJobs.rows = (s₂.tables.only 7).ocrJobs.rows
              && (s₁.tables.only 7).ocrPages.rows = (s₂.tables.only 7).ocrPages.rows
              && (s₁.tables.only 7).documents.rows = (s₂.tables.only 7).documents.rows
              && (s₁.tables.only 7).folders.rows = (s₂.tables.only 7).folders.rows
              && (s₁.tables.only 7).objects.rows = (s₂.tables.only 7).objects.rows)
            && (s₁.tables.folders.find 0 = none && s₁.tables.documents.find 0 = none
              && s₁.tables.ocrJobs.find 0 = none)
            && (s₂.tables.folders.find 0 = none && s₂.tables.documents.find 0 = none
              && s₂.tables.ocrJobs.find 0 = none)) = true := by
    decide +kernel
  obtain ⟨s₁, hs₁, hend⟩ := (Option.any_eq_true _ _).mp hsome
  simp only [Bool.and_eq_true, decide_eq_true_eq] at hend
  obtain ⟨⟨hnone, hdenied⟩, hend⟩ := hend
  obtain ⟨s₂, hs₂, hend⟩ := (Option.any_eq_true _ _).mp hend
  simp only [Bool.and_eq_true, decide_eq_true_eq] at hend
  obtain ⟨⟨⟨hforeign, ⟨⟨⟨hjobs, hpages⟩, hdocuments⟩, hfolders⟩, hobjects⟩,
    ⟨hfolder₁, hdocument₁⟩, hjob₁⟩, ⟨hfolder₂, hdocument₂⟩, hjob₂⟩ := hend
  obtain ⟨ts₁, hrun₁, -⟩ := TransitionSystem.run_of_execute hs₁
  obtain ⟨ts₂, hrun₂, -⟩ := TransitionSystem.run_of_execute hs₂
  have hinit : (system sampleConfig asciiUnicode id).init sampleState :=
    ⟨⟨rfl, rfl⟩, ⟨rfl, rfl, rfl, rfl, rfl, rfl⟩, ⟨⟨rfl, rfl, rfl, rfl⟩, rfl⟩, rfl⟩
  obtain ⟨response, t₁, t₂, hperform₁, hperform₂, hsame, hothers₁, hothers₂⟩ :=
    users_isolated sampleTexts hinit hrun₁ hinit (hrun₁.append hrun₂)
      (Tables.eq_of_rows hjobs hpages hdocuments hfolders hobjects)
      (rfl : sampleEnvironment.only 7 = sampleEnvironment.only 7)
      ⟨hfolder₁, hdocument₁, hjob₁⟩ ⟨hfolder₂, hdocument₂, hjob₂⟩
      (.documents (.create ⟨js "First", none, some 2⟩))
  obtain ⟨r, hr, hresponse⟩ := (Option.any_eq_true _ _).mp hdenied
  obtain rfl : r = (response, t₁) := Option.some.inj (hr.symm.trans hperform₁)
  obtain rfl : response = .exception folderNotFound := of_decide_eq_true hresponse
  exact ⟨s₁, s₂, hs₁, hs₂, hnone, hforeign, t₁, t₂, hperform₁, hperform₂, hsame, hothers₁, hothers₂⟩

end Backend

end DocuAI
