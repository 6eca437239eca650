import DocuAI.Backend.References
import DocuAI.Backend.Operations
import DocuAI.Documents.Lifecycle
import DocuAI.Ocr.Requests

/-!
# Removed documents

Removing a document marks its row and leaves it in place, so everything else has to look at the mark.
Once a document is removed, its row keeps all but its folder and `updatedAt` in every run of the
backend, and nothing that starts later finds the document: the calls on it, the requests for its text,
the queries, and the workers its jobs are delivered to (`removal_final`).
-/

namespace DocuAI

/-! ### Rows -/

/-- What becomes of the row of a document: a row stays and moves as the lifecycle says, and a new one
is marked as it should be. -/
structure RowMoves (row row' : Option Document) : Prop where
  stays : ∀ r, row = some r → r.Marked → ∃ r', row' = some r' ∧ r.Moves r'
  appears : row = none → ∀ r', row' = some r' → r'.Marked

namespace RowMoves

theorem refl (row : Option Document) :
  RowMoves row row
  := by
  constructor
  · rintro r rfl hmarked
    exact ⟨r, rfl, (Document.Refiled.refl r).moves hmarked⟩
  · rintro rfl r' ⟨⟩

/-- A row that differs in the folder at most. -/
theorem of_map {row : Option Document} {f : Document → Document} (hf : ∀ r : Document, r.Refiled (f r)) :
  RowMoves row (row.map f)
  := by
  constructor
  · rintro r rfl hmarked
    exact ⟨f r, rfl, (hf r).moves hmarked⟩
  · rintro rfl r' ⟨⟩

end RowMoves

section

variable {config : DocumentsConfig}

/-- An update that is restricted to some rows changes the folder only if it does. -/
theorem refiled_among {u : Update Document.id}
    (hu : ∀ r : Document, r.Refiled (u.apply r))
    (p : Document → Bool) (r : Document) :
  r.Refiled ((u.among p).apply r)
  := by
  unfold Update.apply
  split
  · rename_i hguard
    have hguard : u.guard r = true := by
      simp only [Update.among, Bool.and_eq_true] at hguard
      exact hguard.2
    have hsame := hu r
    rwa [u.apply_of_guard hguard] at hsame
  · rfl

/-- A step of a call on folders changes documents in their folders at most. -/
theorem Folders.Call.rowMoves_act {s s' : Folders.Store} {c : Folders.Call} {phase : Folders.Phase}
    {action : Folders.Action} (hact : c.act config s action = some (s', phase)) (id : ℕ) :
  RowMoves (s.documents.find id) (s'.documents.find id)
  := by
  cases Folders.Call.acts_of_act hact with
  | reads | throws | orphans | refuses | keeps | creates | saves => exact .refl _
  | @deletes folder unfiled =>
      change RowMoves _ (Table.find (Table.updateMany (Table.updateMany _ _).1 _).1 id)
      rw [Table.find_updateMany, Table.find_updateMany, Option.map_map]
      apply RowMoves.of_map
      intro r
      have hunfile : r.Refiled _ :=
        refiled_among (@DocumentWrite.refiled_unfile config s.now folder.id c.userId)
          (fun document => document.id ∈ unfiled) r
      exact hunfile.trans (DocumentWrite.refiled_unreference s.now folder.id _)

/-- A step of a call on documents. -/
theorem Documents.rowMoves_of_step {storage : StorageConfig} {unicode : Unicode}
    {s s' : Documents.State config} {a : Documents.Label}
    (h : Documents.step storage unicode s a = some s') (id : ℕ) :
  RowMoves (s.documents.find id) (s'.documents.find id)
  := by
  have hrow := (Documents.moves_of_step h).rowStep id
  constructor
  · intro r hr hmarked
    rw [hr] at hrow
    exact hrow.moves hmarked
  · intro hnone r' hr'
    rw [hnone, hr'] at hrow
    cases hrow
    exact .of_live rfl (by simp [DocumentsService.createdDocument])

/-- Counting the pages of a document. -/
theorem PagesCounted.rowMoves {now : ℕ} {documents documents' : Table Document.id}
    (h : PagesCounted config now documents documents') (id : ℕ) :
  RowMoves (documents.find id) (documents'.find id)
  := by
  rcases h with rfl | ⟨documentId, totalPages, rfl⟩
  · exact .refl _
  · rw [Table.find_updateMany]
    constructor
    · intro r hr hmarked
      rw [hr]
      exact ⟨_, rfl, DocumentWrite.moves _ now hmarked⟩
    · intro hnone r' hr'
      rw [hnone] at hr'
      cases hr'

end

namespace Backend

variable {config : AppConfig} {unicode : Unicode} {hashtext : ℕ → ℕ} {s s' : State config}

theorem rowMoves_of_step {label : Label}
    (hstep : (system config unicode hashtext).step s label = some s') (id : ℕ) :
  RowMoves (s.tables.documents.find id) (s'.tables.documents.find id)
  := by
  change Backend.step config unicode hashtext s label = some s' at hstep
  cases label with
  | tick ms =>
      obtain rfl := Option.some.inj hstep
      exact .refl _
  | folders a =>
      simp only [Backend.step] at hstep
      split at hstep
      swap
      · cases hstep
      rename_i hguard
      obtain ⟨part, hpart, hstep⟩ := Option.bind_eq_some_iff.mp hstep
      obtain rfl := Option.some.inj hstep
      cases a with
      | tick | writeDocuments => cases hguard.1
      | call callId userId operation =>
          obtain ⟨calls, -, hpart⟩ := Option.bind_eq_some_iff.mp hpart
          obtain rfl := Option.some.inj hpart
          exact .refl _
      | step callId action =>
          obtain ⟨c, -, hpart⟩ := Option.bind_eq_some_iff.mp hpart
          split at hpart
          swap
          · cases hpart
          obtain ⟨⟨t, phase⟩, hact, hpart⟩ := Option.bind_eq_some_iff.mp hpart
          obtain rfl := Option.some.inj hpart
          exact Folders.Call.rowMoves_act hact id
  | documents a =>
      simp only [Backend.step] at hstep
      split at hstep
      · obtain ⟨part, hpart, hstep⟩ := Option.bind_eq_some_iff.mp hstep
        obtain rfl := Option.some.inj hstep
        exact Documents.rowMoves_of_step hpart id
      · cases hstep
  | ocr a =>
      simp only [Backend.step] at hstep
      split at hstep
      · rename_i hguard
        obtain ⟨part, hpart, hstep⟩ := Option.bind_eq_some_iff.mp hstep
        obtain rfl := Option.some.inj hstep
        exact (OcrService.pagesCounted_of_step config.documents hguard hpart).rowMoves id
      · cases hstep

/-- In every run the rows of documents are marked as their status says. -/
theorem marked_of_run {ts : List (Transition (State config) Label)}
    (hinit : (system config unicode hashtext).init s)
    (hrun : (system config unicode hashtext).Run s ts s') {id : ℕ} {r : Document}
    (hr : s'.tables.documents.find id = some r) :
  r.Marked
  := by
  have hrows : ∀ id r, s'.tables.documents.find id = some r → r.Marked := by
    apply hrun.invariant (I := fun s => ∀ id r, s.tables.documents.find id = some r → r.Marked)
    · intro id r hr
      have hnone : s.tables.documents.find id = none :=
        Table.find_of_rows_eq_nil hinit.2.1.1 id
      rw [hnone] at hr
      cases hr
    · intro t _ hstep hmarked id r' hr'
      have hmoves := rowMoves_of_step hstep id
      cases hrow : t.source.tables.documents.find id with
      | none => exact hmoves.appears hrow r' hr'
      | some r =>
          obtain ⟨r'', hr'', hmove⟩ := hmoves.stays r hrow (hmarked id r hrow)
          rw [hr''] at hr'
          obtain rfl := Option.some.inj hr'
          exact hmove.marked
  exact hrows id r hr

/-- The row of a document that was removed is there, in some folder. -/
def Gone (removed : Document) (s : State config) : Prop :=
  ∃ r, s.tables.documents.find removed.id = some r ∧ removed.Refiled r

theorem Gone.step {removed : Document} (hdeleted : removed.deletedAt ≠ none)
    (hmarked : removed.Marked) (h : Gone removed s) {label : Label}
    (hstep : (system config unicode hashtext).step s label = some s') :
  Gone removed s'
  := by
  obtain ⟨r, hr, hsame⟩ := h
  have hdeleted_r : r.deletedAt ≠ none := by
    rwa [hsame]
  obtain ⟨r', hr', hmove⟩ := (rowMoves_of_step hstep removed.id).stays r hr
    (hsame.moves hmarked).marked
  exact ⟨r', hr', hsame.trans (hmove.frozen hdeleted_r)⟩

end Backend

/-! ### Calls on documents -/

/-- A removed document is not found. -/
theorem DocumentsService.getOwned_of_deleted {documents : Table Document.id} {documentId : ℕ}
    {r : Document} (hr : documents.find documentId = some r) (hdeleted : r.deletedAt ≠ none)
    (userId : ℕ) :
  getOwned documents userId documentId = .error documentNotFound
  := by
  cases howned : getOwned documents userId documentId with
  | error error =>
      unfold getOwned at howned
      simp only at howned
      split at howned
      · cases howned
      · rw [← Except.error.inj howned]
  | ok document =>
      obtain ⟨hfind, -, hlive⟩ := getOwned_eq_ok_iff.mp howned
      obtain rfl := Option.some.inj (hr.symm.trans hfind)
      exact absurd hlive hdeleted

/-- The documents of a list are live ones of the table. -/
theorem DocumentsService.live_of_list {texts : Texts} {folders : Table Folder.id}
    {documents : Table Document.id} {userId : ℕ} {query : ListDocumentsQueryDto} {page : DocumentPage}
    (h : list texts folders documents userId query = .ok page) {document : Document}
    (hdocument : document ∈ page.items) :
  documents.find document.id = some document ∧ document.deletedAt = none
  := by
  have hmem {order : Document → Document → Ordering} (hitems : page.items
      = pageOf query.page query.limit
        (orderBy order (documents.rows.filter (listed texts userId query)))) :
      documents.find document.id = some document ∧ document.deletedAt = none := by
    rw [hitems] at hdocument
    have hfound := (List.perm_insertionSort _ _).mem_iff.mp
      (List.mem_of_mem_drop (List.mem_of_mem_take hdocument))
    obtain ⟨hrow, hlisted⟩ := List.mem_filter.mp hfound
    simp only [listed, Bool.and_eq_true, Option.isNone_iff_eq_none] at hlisted
    exact ⟨Table.mem_rows_iff.mp hrow, hlisted.1.1.1.2⟩
  unfold list at h
  cases hfolder : query.folderId.join with
  | none =>
      rw [hfolder] at h
      exact hmem (congrArg DocumentPage.items (Except.ok.inj h).symm)
  | some folderId =>
      rw [hfolder] at h
      cases howned : FoldersService.getOwned folders userId folderId with
      | error error =>
          simp only [howned] at h
          cases h
      | ok folder =>
          simp only [howned] at h
          exact hmem (congrArg DocumentPage.items (Except.ok.inj h).symm)

namespace Documents

/-- The document an operation is about. -/
def Operation.documentId : Operation → Option ℕ
  | .create _ => none
  | .update documentId _ | .createUploadUrl documentId _ | .completeUpload documentId _
  | .remove documentId => some documentId

variable {config : DocumentsConfig} {storage : StorageConfig} {unicode : Unicode}
  {s s' : State config} {c : Call config} {documentId : ℕ}

/-- The call ends without its document: it is not found, or the declaration of the file is refused
before it is looked for. -/
def Refused (config : DocumentsConfig) (unicode : Unicode)
    (result : Except AppException Result) : Prop :=
  result = .error documentNotFound
    ∨ ∃ dto error, DocumentFilesService.declare config unicode dto = .error error
      ∧ result = .error error

/-- The call has not found the document. -/
def Phase.Misses (unicode : Unicode) (documentId : ℕ) : Phase config → Prop
  | .updating id _ | .requesting id _ | .completing id _ | .removing id _ | .denying id =>
      id = documentId
  | .returned result => Refused config unicode result
  | .rejected => True
  | _ => False

theorem Operation.misses_start {operation : Operation} (h : operation.documentId = some documentId)
    (now : ℕ) :
  (operation.start config unicode now).Misses unicode documentId
  := by
  cases operation with
  | create dto => cases h
  | update | completeUpload | remove => exact Option.some.inj h
  | createUploadUrl id dto =>
      simp only [start]
      cases hdeclare : DocumentFilesService.declare config unicode dto with
      | ok declaration => exact Option.some.inj h
      | error error => exact .inr ⟨dto, error, hdeclare, rfl⟩

/-- A call that has not found a removed document does not find it in its next step. -/
theorem Call.misses_act {r : Document} (hr : s.documents.find documentId = some r)
    (hdeleted : r.deletedAt ≠ none) (hmisses : c.phase.Misses unicode documentId) {action : Action}
    {phase : Phase config} (hact : c.act storage unicode s action = some (s', phase)) :
  phase.Misses unicode documentId
  := by
  have howned := DocumentsService.getOwned_of_deleted hr hdeleted c.userId
  have hwithOwned {next : Document → Phase config}
      (h : some (c.withOwned s documentId next) = some (s', phase)) :
      phase.Misses unicode documentId := by
    simp only [withOwned, howned] at h
    obtain ⟨rfl, rfl⟩ := Prod.mk.inj (Option.some.inj h)
    rfl
  cases action with
  | advance =>
      simp only [act, advance] at hact
      cases hphase : c.phase with
      | updating id dto | requesting id declaration | completing id dto =>
          rw [hphase] at hmisses hact
          obtain rfl : id = documentId := hmisses
          exact hwithOwned hact
      | removing id deletedAt =>
          rw [hphase] at hmisses hact
          obtain rfl : id = documentId := hmisses
          have hid : ∀ r : Document, ((DocumentWrite.remove id c.userId deletedAt :
              DocumentWrite config).update s.now).guard r = true → r.id = id := by
            intro r hguard
            simp only [DocumentWrite.update, Bool.and_eq_true, decide_eq_true_eq] at hguard
            exact hguard.1.1
          have hcount : (s.send (.remove id c.userId deletedAt)).2 ≠ 1 := by
            intro hone
            obtain ⟨row, hrow, hguard, -⟩ := Table.find_of_count hid hone
            obtain rfl := Option.some.inj (hr.symm.trans hrow)
            simp only [DocumentWrite.update, Bool.and_eq_true, Option.isNone_iff_eq_none] at hguard
            exact hdeleted hguard.2
          simp only [remove, if_neg hcount] at hact
          obtain ⟨rfl, rfl⟩ := Prod.mk.inj (Option.some.inj hact)
          rfl
      | denying id =>
          rw [hphase] at hact
          obtain ⟨rfl, rfl⟩ := Prod.mk.inj (Option.some.inj hact)
          exact .inl rfl
      | returned | rejected =>
          rw [hphase] at hact
          cases hact
      | _ =>
          rw [hphase] at hmisses
          cases hmisses
  | throw =>
      simp only [act] at hact
      split at hact
      · cases hact
      · cases hact
      · obtain ⟨rfl, rfl⟩ := Prod.mk.inj (Option.some.inj hact)
        trivial
  | insert | issue | head | undeleted =>
      simp only [act] at hact
      split at hact
      all_goals
        first
          | (rename_i hphase
             rw [hphase] at hmisses
             cases hmisses)
          | cases hact

end Documents

/-! ### Requests for text -/

namespace OcrService

/-- The call has not found its document. -/
def Phase.Misses : Phase → Prop
  | .called | .rejected => True
  | .returned result => result = .error documentNotFound ∨ result = .error ocrUnavailable
  | _ => False

theorem Call.misses_act {config : OcrConfig} {hashtext : ℕ → ℕ} {s : State} {c : Call} {r : Document}
    (hr : s.worker.db.documents.find c.documentId = some r) (hdeleted : r.deletedAt ≠ none)
    (hmisses : c.phase.Misses) {action : Action} {e : Effect}
    (hact : c.act config hashtext s action = some e) :
  e.phase.Misses ∧ e.commit = none
  := by
  have howned := DocumentsService.getOwned_of_deleted hr hdeleted c.userId
  cases action with
  | advance =>
      simp only [act, advance] at hact
      cases hphase : c.phase with
      | called =>
          rw [hphase] at hact
          simp only [howned] at hact
          split at hact
          · obtain rfl := Option.some.inj hact
            exact ⟨.inr rfl, rfl⟩
          · obtain rfl := Option.some.inj hact
            exact ⟨.inl rfl, rfl⟩
      | returned | rejected =>
          rw [hphase] at hact
          cases hact
      | _ =>
          rw [hphase] at hmisses
          cases hmisses
  | throw =>
      simp only [act] at hact
      split at hact
      · cases hact
      · cases hact
      · obtain rfl := Option.some.inj hact
        exact ⟨trivial, rfl⟩
  | resolve | create =>
      simp only [act] at hact
      split at hact
      all_goals
        first
          | (rename_i hphase
             rw [hphase] at hmisses
             cases hmisses)
          | cases hact

end OcrService

/-! ### Workers -/

namespace OcrWorker

/-- The job that a process has read, and still goes by. -/
def Phase.job : Phase → Option OcrJob
  | .found job | .claimed job | .starting job | .loading job | .cancelling job | .downloading job _
  | .inspecting job _ | .measured job _ _ | .resuming job _ | .extracting job _ | .yielded job _ _
  | .finalizing job => some job
  | .delivered | .exhausted | .concluding _ | .failing _ _ | .returned | .dead => none

/-- The process works on the file of the document. -/
def Phase.reads : Phase → Bool
  | .downloading _ _ | .inspecting _ _ | .measured _ _ _ | .resuming _ _ | .extracting _ _
  | .yielded _ _ _ | .finalizing _ => true
  | _ => false

/-- The process does not work on the file of a document: the job it has read is that of its row, and
of another document if it works on a file. -/
structure Process.Spares (db : Database) (documentId : ℕ) (q : Process) : Prop where
  job : ∀ job, q.phase.job = some job →
    ∃ row, db.ocrJobs.find q.jobId = some row ∧ row.documentId = job.documentId
  reads : ∀ job, q.phase.job = some job → q.phase.reads = true → job.documentId ≠ documentId

section

variable {config : OcrConfig} {unicode : Unicode} {s s' : State} {documentId : ℕ}

theorem documentId_applied (config : OcrConfig) (unicode : Unicode) (s : State) (a : Label)
    (job : OcrJob) :
  (a.applied config unicode s job).documentId = job.documentId
  := by
  unfold Label.applied
  split
  · rename_i w _
    have hkeeps := (OcrService.keeps_write w config.staleJobMs s.now s.db).documentId job
    rw [Update.on_apply] at hkeeps
    simpa [eq_comm] using hkeeps
  · rfl

theorem Process.Spares.mono {db db' : Database} {q : Process} (h : q.Spares db documentId)
    (hrows : ∀ jobId row, db.ocrJobs.find jobId = some row →
      ∃ row', db'.ocrJobs.find jobId = some row' ∧ row'.documentId = row.documentId) :
  q.Spares db' documentId
  := by
  refine ⟨fun job hjob => ?_, h.reads⟩
  obtain ⟨row, hrow, hdocument⟩ := h.job job hjob
  obtain ⟨row', hrow', hsame⟩ := hrows q.jobId row hrow
  exact ⟨row', hrow', hsame.trans hdocument⟩

/-- A process that has been delivered has read no job yet. -/
theorem Process.spares_of_job {db : Database} {q : Process} (h : q.phase.job = none) :
  q.Spares db documentId
  := by
  constructor
  · intro job hjob
    rw [h] at hjob
    cases hjob
  · intro job hjob
    rw [h] at hjob
    cases hjob

/-- A process that goes on with its job, and does not come to work on a file. -/
theorem Process.Spares.goes {db : Database} {q : Process} (h : q.Spares db documentId)
    {progress : Progress} (hjob : ∀ job, progress.phase.job = some job → q.phase.job = some job)
    (hreads : progress.phase.reads = true → q.phase.reads = true) :
  ({ q with toProgress := progress } : Process).Spares db documentId
  := ⟨fun job hjob' => h.job job (hjob job hjob'),
    fun job hjob' hreads' => h.reads job (hjob job hjob') (hreads hreads')⟩

/-- A process does not come to work on the file of a document that was removed. -/
theorem Process.Spares.act {r : Document} (hr : s.db.documents.find documentId = some r)
    (hdeleted : r.deletedAt ≠ none) {q : Process} (h : q.Spares s.db documentId) {action : Action}
    {e : Effect} (hact : q.act config unicode s.db s.now action = some e) (reply : Bool) :
  ({ q with toProgress := e.next reply } : Process).Spares s.db documentId
  := by
  cases Process.moves_of_act hact with
  | ignores | exhausts | givesUp | cancels | finalizes | concludes | handles | rejects | throws | dies
  | downloadFails | inspectFails | extractFails => exact spares_of_job rfl
  | finds hphase hjob =>
      refine ⟨fun job hjob' => ?_, fun job _ hreads => by cases hreads⟩
      obtain rfl := Option.some.inj hjob'
      exact ⟨_, hjob, rfl⟩
  | @claims job _ hphase =>
      cases reply with
      | false => exact spares_of_job rfl
      | true =>
          apply h.goes
          · intro job' hjob'
            rw [hphase]
            exact hjob'
          · intro hreads
            cases hreads
  | @starts job hphase =>
      obtain ⟨row, hrow, -⟩ := h.job job (by rw [hphase]; rfl)
      refine ⟨fun job' hjob' => ?_, fun job _ hreads => by cases hreads⟩
      obtain rfl := Option.some.inj hjob'
      have hfind : OcrJobService.findById s.db q.jobId = some row := hrow
      rw [hfind]
      exact ⟨row, hrow, rfl⟩
  | enters hphase =>
      apply h.goes
      · intro job' hjob'
        rw [hphase]
        exact hjob'
      · intro hreads
        cases hreads
  | @loads job hphase =>
      have hjob : q.phase.job = some job := by rw [hphase]; rfl
      -- the document of the job is looked up, and found only if it is not removed
      have hload : load config s.db job = .cancelling job
          ∨ (∃ error, load config s.db job = .failing job error)
          ∨ ∃ document, load config s.db job = .downloading job document
            ∧ job.documentId ≠ documentId := by
        unfold load
        simp only
        split
        · exact .inl rfl
        · rename_i document hdocument
          split
          · exact .inl rfl
          · split
            · exact .inr (.inl ⟨_, rfl⟩)
            · refine .inr (.inr ⟨document, rfl, ?_⟩)
              rintro rfl
              obtain ⟨hfind, hlive⟩ := Option.filter_eq_some_iff.mp hdocument
              obtain rfl := Option.some.inj (hr.symm.trans hfind)
              simp only [Bool.and_eq_true, Option.isNone_iff_eq_none] at hlive
              exact hdeleted hlive.2
      rcases hload with hload | ⟨error, hload⟩ | ⟨document, hload, hne⟩
      · simp only [hload]
        apply h.goes
        · intro job' hjob'
          rw [hjob]
          exact hjob'
        · intro hreads
          cases hreads
      · simp only [hload]
        exact spares_of_job rfl
      · simp only [hload]
        constructor
        · intro job' hjob'
          exact h.job job' (hjob.trans hjob')
        · intro job' hjob' _
          obtain rfl := Option.some.inj hjob'
          exact hne
  | downloads hphase | inspects hphase | measures hphase | resumes hphase | yields hphase
  | ends hphase | persists hphase =>
      apply h.goes
      · intro job' hjob'
        rw [hphase]
        exact hjob'
      · intro _
        rw [hphase]
        rfl
  | beats => exact h.goes (fun _ hjob => hjob) fun hreads => hreads

theorem Process.Spares.not_reads {db : Database} {q : Process} (h : q.Spares db documentId)
    {row : OcrJob} (hrow : db.ocrJobs.find q.jobId = some row)
    (hdocument : row.documentId = documentId) :
  q.phase.reads = false
  := by
  by_contra hreads
  rw [Bool.not_eq_false] at hreads
  obtain ⟨job, hjob⟩ : ∃ job, q.phase.job = some job := by
    cases hphase : q.phase with
    | downloading job | inspecting job | measured job | resuming job | extracting job | yielded job
    | finalizing job => exact ⟨job, rfl⟩
    | _ =>
        rw [hphase] at hreads
        cases hreads
  obtain ⟨row', hrow', hsame⟩ := h.job job hjob
  obtain rfl := Option.some.inj (hrow.symm.trans hrow')
  exact h.reads job hjob hreads (hsame.symm.trans hdocument)

/-- A process that does not work on the file of a removed document. -/
theorem spares_of_step {r : Document} (hr : s.db.documents.find documentId = some r)
    (hdeleted : r.deletedAt ≠ none) {a : Label} (hstep : step config unicode s a = some s')
    {id jobId : ℕ} (h : ∃ q, s.processes.find id = some q ∧ q.jobId = jobId ∧ q.Spares s.db documentId) :
  ∃ q, s'.processes.find id = some q ∧ q.jobId = jobId ∧ q.Spares s'.db documentId
  := by
  obtain ⟨q, hq, hjob, hspares⟩ := h
  have hrows (jobId : ℕ) (row : OcrJob) (hrow : s.db.ocrJobs.find jobId = some row) :
      ∃ row', s'.db.ocrJobs.find jobId = some row' ∧ row'.documentId = row.documentId :=
    ⟨_, find_of_step hstep hrow, documentId_applied config unicode s a row⟩
  rcases find_process_of_step hstep hq with hq' | ⟨action, e, -, hact, hq'⟩
  · exact ⟨q, hq', hjob, hspares.mono hrows⟩
  · exact ⟨_, hq', hjob, (hspares.act hr hdeleted hact _).mono hrows⟩

end

end OcrWorker

/-! ### Runs -/

namespace Backend

variable {config : AppConfig} {unicode : Unicode} {hashtext : ℕ → ℕ} {s s' : State config}

/-- A call on documents has not found the document. -/
def DocumentCallMisses (unicode : Unicode) (callId documentId : ℕ) (s : State config) : Prop :=
  ∃ c, s.documentCalls.find callId = some c ∧ c.phase.Misses unicode documentId

/-- A request for the text of the document has not found it. -/
def OcrCallMisses (callId documentId : ℕ) (s : State config) : Prop :=
  ∃ c, s.ocrCalls.find callId = some c ∧ c.documentId = documentId ∧ c.phase.Misses

/-- A process does not work on the file of the document. -/
def ProcessSpares (processId jobId documentId : ℕ) (s : State config) : Prop :=
  ∃ q, s.processes.find processId = some q ∧ q.jobId = jobId
    ∧ q.Spares s.tables.toDatabase documentId

/-! What a step of the backend makes of these, while the row of the document is marked. -/

section

variable {documentId : ℕ} {r : Document} {label : Label}

theorem documentCallMisses_of_step (hr : s.tables.documents.find documentId = some r)
    (hdeleted : r.deletedAt ≠ none)
    (hstep : (system config unicode hashtext).step s label = some s') {callId : ℕ}
    (h : DocumentCallMisses unicode callId documentId s) :
  DocumentCallMisses unicode callId documentId s'
  := by
  obtain ⟨c, hc, hmisses⟩ := h
  change Backend.step config unicode hashtext s label = some s' at hstep
  cases label with
  | tick ms =>
      obtain rfl := Option.some.inj hstep
      exact ⟨c, hc, hmisses⟩
  | folders a | ocr a =>
      simp only [Backend.step] at hstep
      split at hstep
      · obtain ⟨part, -, hstep⟩ := Option.bind_eq_some_iff.mp hstep
        obtain rfl := Option.some.inj hstep
        exact ⟨c, hc, hmisses⟩
      · cases hstep
  | documents a =>
      simp only [Backend.step] at hstep
      split at hstep
      swap
      · cases hstep
      rename_i hguard
      obtain ⟨part, hpart, hstep⟩ := Option.bind_eq_some_iff.mp hstep
      obtain rfl := Option.some.inj hstep
      cases a with
      | tick | writeFolder | removeFolder | setTotalPages => cases hguard
      | call id userId operation =>
          obtain ⟨calls, hcreate, hpart⟩ := Option.bind_eq_some_iff.mp hpart
          obtain rfl := Option.some.inj hpart
          exact ⟨c, Table.find_create_of_find hcreate hc, hmisses⟩
      | put url contentType bytes etag =>
          simp only [Documents.step] at hpart
          split at hpart
          · obtain rfl := Option.some.inj hpart
            exact ⟨c, hc, hmisses⟩
          · cases hpart
      | step id action =>
          obtain ⟨c₀, hc₀, hpart⟩ := Option.bind_eq_some_iff.mp hpart
          obtain ⟨⟨t, phase⟩, hact, hpart⟩ := Option.bind_eq_some_iff.mp hpart
          obtain rfl := Option.some.inj hpart
          obtain rfl := Table.key_of_find hc
          change ∃ c', Table.find (s.documentCalls.put { c₀ with phase }) c.id = some c' ∧ _
          rw [Table.find_put]
          split
          · rename_i hid
            change c.id = c₀.id at hid
            obtain rfl := Table.key_of_find hc₀
            have hsame : c₀ = c := Option.some.inj (hc₀.symm.trans (hid ▸ hc))
            subst hsame
            exact ⟨_, rfl, Documents.Call.misses_act hr hdeleted hmisses hact⟩
          · exact ⟨c, hc, hmisses⟩

theorem ocrCallMisses_of_step (hr : s.tables.documents.find documentId = some r)
    (hdeleted : r.deletedAt ≠ none)
    (hstep : (system config unicode hashtext).step s label = some s') {callId : ℕ}
    (h : OcrCallMisses callId documentId s) :
  OcrCallMisses callId documentId s'
  := by
  obtain ⟨c, hc, rfl, hmisses⟩ := h
  change Backend.step config unicode hashtext s label = some s' at hstep
  cases label with
  | tick ms =>
      obtain rfl := Option.some.inj hstep
      exact ⟨c, hc, rfl, hmisses⟩
  | folders a | documents a =>
      simp only [Backend.step] at hstep
      split at hstep
      · obtain ⟨part, -, hstep⟩ := Option.bind_eq_some_iff.mp hstep
        obtain rfl := Option.some.inj hstep
        exact ⟨c, hc, rfl, hmisses⟩
      · cases hstep
  | ocr a =>
      simp only [Backend.step] at hstep
      split at hstep
      swap
      · cases hstep
      obtain ⟨part, hpart, hstep⟩ := Option.bind_eq_some_iff.mp hstep
      obtain rfl := Option.some.inj hstep
      have hput {c₀ : OcrService.Call} {action : OcrService.Action} {e : OcrService.Effect}
          (hc₀ : s.ocrCalls.find c₀.id = some c₀)
          (hact : c₀.act config.ocr hashtext s.ocr action = some e) :
          ∃ c', (s.ocrCalls.put { c₀ with phase := e.phase }).find callId = some c'
            ∧ c'.documentId = c.documentId ∧ c'.phase.Misses := by
        rw [Table.find_put]
        split
        · rename_i hid
          change callId = c₀.id at hid
          have hsame : c₀ = c := Option.some.inj (hc₀.symm.trans (hid ▸ hc))
          subst hsame
          exact ⟨_, rfl, rfl, (OcrService.Call.misses_act hr hdeleted hmisses hact).1⟩
        · exact ⟨c, hc, rfl, hmisses⟩
      cases OcrService.labelStep_of_step hpart with
      | worker => exact ⟨c, hc, rfl, hmisses⟩
      | calls hcreate => exact ⟨c, Table.find_create_of_find hcreate hc, rfl, hmisses⟩
      | goes hc₀ hact | commits hc₀ hact => exact hput hc₀ hact

theorem processSpares_of_step (hr : s.tables.documents.find documentId = some r)
    (hdeleted : r.deletedAt ≠ none)
    (hstep : (system config unicode hashtext).step s label = some s') {processId jobId : ℕ}
    (h : ProcessSpares processId jobId documentId s) :
  ProcessSpares processId jobId documentId s'
  := by
  change Backend.step config unicode hashtext s label = some s' at hstep
  cases label with
  | tick ms =>
      obtain rfl := Option.some.inj hstep
      exact h
  | folders a | documents a =>
      simp only [Backend.step] at hstep
      split at hstep
      · obtain ⟨part, -, hstep⟩ := Option.bind_eq_some_iff.mp hstep
        obtain rfl := Option.some.inj hstep
        obtain ⟨q, hq, hjob, hspares⟩ := h
        exact ⟨q, hq, hjob, hspares.mono fun _ row hrow => ⟨row, hrow, rfl⟩⟩
      · cases hstep
  | ocr a =>
      simp only [Backend.step] at hstep
      split at hstep
      swap
      · cases hstep
      obtain ⟨part, hpart, hstep⟩ := Option.bind_eq_some_iff.mp hstep
      obtain rfl := Option.some.inj hstep
      cases OcrService.labelStep_of_step hpart with
      | worker _ hworker | commits _ _ hworker =>
          exact OcrWorker.spares_of_step (s := s.ocr.worker) hr hdeleted hworker h
      | calls | goes => exact h

end

/-- What holds after a transition, and is kept as long as the document is removed, holds at the
end. -/
theorem holds_of_mem {removed : Document} (hdeleted : removed.deletedAt ≠ none)
    (hmarked : removed.Marked) {I : State config → Prop}
    (hkeeps : ∀ s s' label, ∀ r, s.tables.documents.find removed.id = some r → r.deletedAt ≠ none →
      (system config unicode hashtext).step s label = some s' → I s → I s')
    (hgone : Gone removed s) {ts : List (Transition (State config) Label)}
    (hrun : (system config unicode hashtext).Run s ts s') {t : Transition (State config) Label}
    (ht : t ∈ ts) (htarget : I t.target) :
  I s'
  := by
  have hstep := hrun.step_of_mem ht
  obtain ⟨before, after, -, hbefore, hafter⟩ := hrun.split_of_mem ht
  have hsource : Gone removed t.source :=
    hbefore.invariant (I := Gone removed) hgone fun _ _ hstep h => h.step hdeleted hmarked hstep
  have hend : Gone removed s' ∧ I s' := by
    apply hafter.invariant (I := fun s => Gone removed s ∧ I s)
      ⟨hsource.step hdeleted hmarked hstep, htarget⟩
    rintro u - hustep ⟨hu, hI⟩
    obtain ⟨r, hr, hsame⟩ := hu
    refine ⟨Gone.step hdeleted hmarked ⟨r, hr, hsame⟩ hustep, ?_⟩
    apply hkeeps u.source u.target u.label r hr _ hustep hI
    rwa [hsame]
  exact hend.2

/-- Once a document is removed, its row keeps all but its folder and `updatedAt`, whatever happens
later.  Calls on it and requests for its text that start later do not find it, no worker its jobs are
delivered to later works on its file, and no query of any user shows it. -/
theorem removal_final (config : AppConfig) (unicode : Unicode) (hashtext : ℕ → ℕ) (texts : Texts)
    {s₀ s s' : State config} {before after : List (Transition (State config) Label)}
    (hinit : (system config unicode hashtext).init s₀)
    (hrun : (system config unicode hashtext).Run s₀ before s)
    (hlater : (system config unicode hashtext).Run s after s') {r : Document}
    (hr : s.tables.documents.find r.id = some r) (hdeleted : r.deletedAt ≠ none) :
  (∃ r', s'.tables.documents.find r.id = some r' ∧ r.Refiled r')
    ∧ (∀ t ∈ after, ∀ callId userId operation,
      t.label = .documents (.call callId userId operation) → operation.documentId = some r.id →
      ∃ c, s'.documentCalls.find callId = some c
        ∧ ∀ result, c.phase = .returned result → Documents.Refused config.documents unicode result)
    ∧ (∀ t ∈ after, ∀ callId userId operation, t.label = .ocr (.call callId userId r.id operation) →
      ∃ c, s'.ocrCalls.find callId = some c ∧ ∀ result, c.phase = .returned result →
        result = .error documentNotFound ∨ result = .error ocrUnavailable)
    ∧ (∀ t ∈ after, ∀ processId jobId, t.label = .ocr (.worker (.deliver processId jobId)) →
      ∃ q, s'.processes.find processId = some q ∧ ∀ job, s'.tables.ocrJobs.find jobId = some job →
        job.documentId = r.id → q.phase.reads = false)
    ∧ ∀ userId,
      DocumentsService.getOwned s'.tables.documents userId r.id = .error documentNotFound
      ∧ (∀ ttl now, DocumentFilesService.createDownloadUrl ttl s'.tables.documents now userId r.id
        = some (.error documentNotFound))
      ∧ OcrService.status s'.tables.toDatabase userId r.id = .error documentNotFound
      ∧ (∀ query, OcrService.results s'.tables.toDatabase userId r.id query
        = .error documentNotFound)
      ∧ ∀ query page, DocumentsService.list texts s'.tables.folders s'.tables.documents userId query
          = .ok page → ∀ document ∈ page.items, document.id ≠ r.id
  := by
  have hmarked : r.Marked := marked_of_run hinit hrun hr
  have hgone : Gone r s := ⟨r, hr, .refl r⟩
  have hgone' : Gone r s' :=
    hlater.invariant (I := Gone r) hgone fun _ _ hstep h => h.step hdeleted hmarked hstep
  obtain ⟨r', hr', hsame⟩ := hgone'
  have hdeleted' : r'.deletedAt ≠ none := by rwa [hsame]
  refine ⟨⟨r', hr', hsame⟩, ?_, ?_, ?_, ?_⟩
  · intro t ht callId userId operation hlabel hoperation
    have hstep := hlater.step_of_mem ht
    rw [hlabel] at hstep
    have htarget : DocumentCallMisses unicode callId r.id t.target := by
      change Backend.step config unicode hashtext t.source
        (.documents (.call callId userId operation)) = some t.target at hstep
      simp only [Backend.step] at hstep
      rw [if_pos (by rfl)] at hstep
      obtain ⟨part, hpart, hstep⟩ := Option.bind_eq_some_iff.mp hstep
      obtain ⟨calls, hcreate, hpart⟩ := Option.bind_eq_some_iff.mp hpart
      obtain rfl := Option.some.inj hpart
      rw [← Option.some.inj hstep]
      exact ⟨_, (Table.find_create hcreate _).trans (if_pos rfl), Documents.Operation.misses_start hoperation _⟩
    obtain ⟨c, hc, hmisses⟩ := holds_of_mem hdeleted hmarked
      (fun _ _ _ _ hr hdeleted hstep h => documentCallMisses_of_step hr hdeleted hstep h)
      hgone hlater ht htarget
    refine ⟨c, hc, fun result hphase => ?_⟩
    rw [hphase] at hmisses
    exact hmisses
  · intro t ht callId userId operation hlabel
    have hstep := hlater.step_of_mem ht
    rw [hlabel] at hstep
    have htarget : OcrCallMisses callId r.id t.target := by
      change Backend.step config unicode hashtext t.source
        (.ocr (.call callId userId r.id operation)) = some t.target at hstep
      simp only [Backend.step] at hstep
      rw [if_pos (by rfl)] at hstep
      obtain ⟨part, hpart, hstep⟩ := Option.bind_eq_some_iff.mp hstep
      obtain ⟨calls, hcreate, hpart⟩ := Option.bind_eq_some_iff.mp hpart
      obtain rfl := Option.some.inj hpart
      rw [← Option.some.inj hstep]
      exact ⟨_, (Table.find_create hcreate _).trans (if_pos rfl), rfl, trivial⟩
    obtain ⟨c, hc, -, hmisses⟩ := holds_of_mem hdeleted hmarked
      (fun _ _ _ _ hr hdeleted hstep h => ocrCallMisses_of_step hr hdeleted hstep h)
      hgone hlater ht htarget
    refine ⟨c, hc, fun result hphase => ?_⟩
    rw [hphase] at hmisses
    exact hmisses
  · intro t ht processId jobId hlabel
    have hstep := hlater.step_of_mem ht
    rw [hlabel] at hstep
    have htarget : ProcessSpares processId jobId r.id t.target := by
      change Backend.step config unicode hashtext t.source
        (.ocr (.worker (.deliver processId jobId))) = some t.target at hstep
      simp only [Backend.step] at hstep
      rw [if_pos (by rfl)] at hstep
      obtain ⟨part, hpart, hstep⟩ := Option.bind_eq_some_iff.mp hstep
      obtain ⟨worker, hworker, hpart⟩ := Option.bind_eq_some_iff.mp hpart
      obtain ⟨processes, hcreate, hworker⟩ := Option.bind_eq_some_iff.mp hworker
      obtain rfl := Option.some.inj hworker
      obtain rfl := Option.some.inj hpart
      rw [← Option.some.inj hstep]
      exact ⟨_, (Table.find_create hcreate _).trans (if_pos rfl), rfl, OcrWorker.Process.spares_of_job rfl⟩
    obtain ⟨q, hq, rfl, hspares⟩ := holds_of_mem hdeleted hmarked
      (fun _ _ _ _ hr hdeleted hstep h => processSpares_of_step hr hdeleted hstep h)
      hgone hlater ht htarget
    exact ⟨q, hq, fun job hjob hdocument => hspares.not_reads hjob hdocument⟩
  · intro userId
    have howned := DocumentsService.getOwned_of_deleted hr' hdeleted' userId
    refine ⟨howned, ?_, ?_, ?_, ?_⟩
    · intro ttl now
      simp only [DocumentFilesService.createDownloadUrl, howned]
    · unfold OcrService.status
      rw [howned]
      rfl
    · intro query
      unfold OcrService.results
      rw [howned]
      rfl
    · intro query page hpage document hdocument hid
      obtain ⟨hfind, hlive⟩ := DocumentsService.live_of_list hpage hdocument
      rw [hid, hr'] at hfind
      obtain rfl := Option.some.inj hfind
      exact hdeleted' hlive

/-! A document is removed, and then updated. -/

def createAndRemove : List Label :=
  [.documents (.call 1 7 (.create ⟨js "Draft", none, none⟩)), .documents (.step 1 (.insert 10)),
    .documents (.call 2 7 (.remove 10)), .documents (.step 2 .advance)]

def updateRemoved : List Label :=
  [.documents (.call 3 7 (.update 10 ⟨some (some (js "Final")), none, none⟩)),
    .documents (.step 3 .advance), .documents (.step 3 .advance)]

theorem removal_final_of_updateRemoved :
  ∃ (before after : List (Transition (State sampleConfig) Label)) (s s' : State sampleConfig)
      (r : Document), (system sampleConfig asciiUnicode id).Run sampleState before s
    ∧ (system sampleConfig asciiUnicode id).Run s after s' ∧ r.id = 10 ∧ r.deletedAt = some 0
    ∧ (∃ r', s'.tables.documents.find 10 = some r' ∧ r.Refiled r')
    ∧ ∃ c, s'.documentCalls.find 3 = some c ∧ (∃ result, c.phase = .returned result
      ∧ Documents.Refused sampleConfig.documents asciiUnicode result)
  := by
  have hsome : ((system sampleConfig asciiUnicode id).execute (fun _ => true) sampleState
      createAndRemove).any (fun s => (s.tables.documents.find 10).any (fun r => r.deletedAt = some 0)
        && ((system sampleConfig asciiUnicode id).execute (fun _ => true) s updateRemoved).any
          fun s' => (s'.documentCalls.find 3).any fun c =>
            decide (c.phase = .returned (.error documentNotFound))) = true := by
    decide +kernel
  obtain ⟨s, hs, hend⟩ := (Option.any_eq_true _ _).mp hsome
  rw [Bool.and_eq_true] at hend
  obtain ⟨hrow, hlater⟩ := hend
  obtain ⟨r, hr, hdeleted⟩ := (Option.any_eq_true _ _).mp hrow
  obtain ⟨s', hs', hcall⟩ := (Option.any_eq_true _ _).mp hlater
  obtain ⟨c, hc, hphase⟩ := (Option.any_eq_true _ _).mp hcall
  obtain ⟨before, hbefore, -, -⟩ := TransitionSystem.run_of_execute_labels hs
  obtain ⟨after, hafter, -, hlabels⟩ := TransitionSystem.run_of_execute_labels hs'
  have hid : r.id = 10 := Table.key_of_find hr
  have hmem : (.documents (.call 3 7 (.update 10 ⟨some (some (js "Final")), none, none⟩)) : Label)
      ∈ after.map Transition.label := by
    rw [hlabels]
    exact List.mem_cons_self
  obtain ⟨t, ht, hlabel⟩ := List.mem_map.mp hmem
  obtain ⟨hkept, hcalls, -⟩ := removal_final sampleConfig asciiUnicode id
    ⟨fun _ _ => .eq, fun _ _ => true⟩
    ⟨⟨rfl, rfl⟩, ⟨rfl, rfl, rfl, rfl, rfl, rfl⟩, ⟨⟨rfl, rfl, rfl, rfl⟩, rfl⟩, rfl⟩
    hbefore hafter (hid.symm ▸ hr) (by rw [of_decide_eq_true hdeleted]; nofun)
  obtain ⟨c', hc', hrefused⟩ := hcalls t ht 3 7 _ hlabel (congrArg some hid.symm)
  obtain rfl := Option.some.inj (hc.symm.trans hc')
  refine ⟨before, after, s, s', r, hbefore, hafter, hid, of_decide_eq_true hdeleted, hid ▸ hkept, c, hc,
    ?_⟩
  have hreturned := of_decide_eq_true hphase
  exact ⟨_, hreturned, hrefused _ hreturned⟩

end Backend

end DocuAI
